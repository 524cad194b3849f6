/-
  Calling contexts.

  A call string lists the calls that led to a method, most recent first, up to a fixed
  number.  An abstract object is known by its allocation and by the call string of the
  method that allocated it.  A context is a call string together with the receiver.
-/
import StreamVerdict.Jvm.Method

namespace StreamVerdict

/-- A call and the method that makes it. -/
structure Frame where
  callSite : CallSite
  method : MethodRef
deriving DecidableEq

namespace Frame

instance : Ord Frame := ⟨compareLex (compareOn callSite) (compareOn method)⟩

instance : Std.TransOrd Frame := inferInstanceAs (Std.TransCmp (compareLex _ _))

/-- The declared target or the calling method belongs to the application. -/
def isApplication (f : Frame) : Bool :=
  f.callSite.declaredTarget.declaringClass.loader.isApplication
    || f.method.declaringClass.loader.isApplication

def text (f : Frame) : String := f.callSite.text ++ "@" ++ f.method.signature

end Frame

/-- Calls, most recent first. -/
structure CallString where
  frames : List Frame
deriving DecidableEq

namespace CallString

instance : Inhabited CallString := ⟨⟨[]⟩⟩

instance : Ord CallString := ⟨compareOn frames⟩

instance : Std.TransOrd CallString := inferInstanceAs (Std.TransCmp (compareOn frames))

def empty : CallString := ⟨[]⟩

/-- One more call; only the `depth` most recent calls are kept. -/
def push (cs : CallString) (f : Frame) (depth : Nat) : CallString := ⟨(f :: cs.frames).take depth⟩

def text (cs : CallString) : String := "[" ++ Text.commaSeparated (cs.frames.map Frame.text) ++ "]"

end CallString

/-- Where an abstract object comes from. -/
inductive Allocation where
  /-- An instruction of a method. -/
  | new (method : MethodRef) (site : NewSite)
  /-- The outside of the program, for the parameters of an entry point. -/
  | synthetic (type : TypeRef)
deriving DecidableEq

namespace Allocation

def new? : Allocation → Option (MethodRef × NewSite)
  | new m s => some (m, s)
  | synthetic _ => none

def type : Allocation → TypeRef
  | new _ site => site.declaredType
  | synthetic t => t

def rank : Allocation → Nat
  | new _ _ => 0
  | synthetic _ => 1

def method? (a : Allocation) : Option MethodRef := a.new?.map Prod.fst

def site? (a : Allocation) : Option NewSite := a.new?.map Prod.snd

instance : Ord Allocation :=
  ⟨compareLex (compareOn rank)
    (compareLex (compareOn method?) (compareLex (compareOn site?) (compareOn type)))⟩

instance : Std.TransOrd Allocation := inferInstanceAs (Std.TransCmp (compareLex _ _))

end Allocation

/-- An abstract object: an allocation in a calling context. -/
structure Instance where
  allocation : Allocation
  heapContext : CallString
deriving DecidableEq

namespace Instance

instance : Ord Instance := ⟨compareLex (compareOn allocation) (compareOn heapContext)⟩

instance : Std.TransOrd Instance := inferInstanceAs (Std.TransCmp (compareLex _ _))

/-- An object allocated by an instruction of `m` that was called along `cs`. -/
def allocated (m : MethodRef) (site : NewSite) (cs : CallString) : Instance := ⟨.new m site, cs⟩

/-- An object from outside of the program. -/
def synthetic (t : TypeRef) : Instance := ⟨.synthetic t, CallString.empty⟩

def type (i : Instance) : TypeRef := i.allocation.type

/-- The allocating method and instruction, unless the object comes from outside. -/
def newSite? (i : Instance) : Option (MethodRef × NewSite) := i.allocation.new?

def text (i : Instance) : String :=
  match i.allocation with
  | .new m site => site.text ++ " in " ++ m.signature ++ " " ++ i.heapContext.text
  | .synthetic t => "synthetic " ++ t.text

end Instance

/-- A call string and the receiver of the method. -/
structure Context where
  callString : CallString
  receiver : Option Instance
deriving DecidableEq

/-- The context of code that nothing calls. -/
def Context.everywhere : Context := ⟨CallString.empty, none⟩

end StreamVerdict
