/-
  Finding the declaration that a method reference means.

  Resolution starts at the declaring class of the reference, dispatch at the class of the
  receiver.  Both look along the superclasses first and then through the interfaces; there a
  declaration with code is preferred to an abstract one, and otherwise the one that is met
  first counts.
-/
import StreamVerdict.Hierarchy.Basic

namespace StreamVerdict
namespace Hierarchy

/-- The interfaces to look through for `t`: `t` itself if it is one, then what the classes of
    its superclass chain implement, nearest class first, each followed upward. -/
def interfaces (h : Hierarchy) (t : TypeName) : List TypeName :=
  let self := if (h.class? t).any ClassInfo.isInterface then [t] else []
  Reach.visit (h.links ClassInfo.interfaces) (self ++ (h.chain t).flatMap ClassInfo.interfaces)

/-- The nearest declaration of the selector along the superclasses of `t`. -/
def inSuperclasses? (h : Hierarchy) (t : TypeName) (selector : String) : Option DeclaredMethod :=
  (h.chain t).findSome? fun c => c.findMethod? selector

/-- The nearest declaration with code along the superclasses of `t`. -/
def concreteInSuperclasses? (h : Hierarchy) (t : TypeName) (selector : String) :
    Option DeclaredMethod :=
  (h.chain t).findSome? fun c => (c.findMethod? selector).filter fun m => !m.isAbstract

/-- The first declaration with code among the interfaces of `t`. -/
def defaultInInterfaces? (h : Hierarchy) (t : TypeName) (selector : String) :
    Option DeclaredMethod :=
  (h.interfaces t).findSome? fun i =>
    ((h.class? i).bind fun c => c.findMethod? selector).filter fun m => !m.isAbstract

/-- The first declaration among the interfaces of `t`, one with code if there is any. -/
def inInterfaces? (h : Hierarchy) (t : TypeName) (selector : String) : Option DeclaredMethod :=
  (h.defaultInInterfaces? t selector).or
    ((h.interfaces t).findSome? fun i => (h.class? i).bind fun c => c.findMethod? selector)

/-- The declaration that a method reference means where it stands. -/
def resolve? (h : Hierarchy) (m : MethodRef) : Option DeclaredMethod :=
  (h.inSuperclasses? m.declaringClass.name m.selector).or
    (h.inInterfaces? m.declaringClass.name m.selector)

/-- The method with code that runs when `declared` is called on an object of class
    `receiver`. -/
def dispatch? (h : Hierarchy) (receiver : TypeName) (declared : MethodRef) : Option MethodRef :=
  ((h.concreteInSuperclasses? receiver declared.selector).or
    (h.defaultInInterfaces? receiver declared.selector)).map DeclaredMethod.method

end Hierarchy
end StreamVerdict
