/-
The part of the analysed module the passes read: functions with their
linkage, arguments and instructions, global variables, and what each call
site calls.  Values, functions and call sites are named by ids that stand for
their addresses.
-/
import Mathlib.Data.List.Basic

namespace DSA

/-- The called operand of a call or invoke, as far as the passes look at it. -/
inductive CalledValue where
  | function (f : Nat)
  | nullPtr
  | undef
  | inlineAsm
  | bitcast (v : CalledValue)
  | value (v : Nat)
deriving DecidableEq, Repr

namespace CalledValue

/-- `Value::stripPointerCasts`. -/
def stripPointerCasts : CalledValue → CalledValue
  | bitcast v => v.stripPointerCasts
  | v => v

/-- `CallSite::getCalledFunction`: a function called without a cast. -/
def getCalledFunction : CalledValue → Option Nat
  | function f => some f
  | _ => none

end CalledValue

/-- An instruction: a call or invoke site, or any other instruction. -/
inductive Instruction where
  | call (site : Nat) (callee : CalledValue)
  | other (value : Nat)
deriving DecidableEq, Repr

/-- The value an instruction defines (for a call, the call site itself). -/
def Instruction.value : Instruction → Nat
  | call site _ => site
  | other v => v

structure Argument where
  value : Nat
  isPointer : Bool
deriving DecidableEq, Repr

structure Function where
  id : Nat
  isDeclaration : Bool
  hasInternalLinkage : Bool
  args : List Argument
  blocks : List (List Instruction)
deriving DecidableEq, Repr

/-- The pointer-typed formals of a function, in order. -/
def Function.ptrArgs (F : Function) : List Argument := F.args.filter (·.isPointer)

structure GlobalVariable where
  id : Nat
  isDeclaration : Bool
  hasInternalLinkage : Bool
deriving DecidableEq, Repr

/-- The analysed module.  `functionIsCallable` is the analysis' test that a
function is a legal target of a call site (its argument and return types fit
the call); it is not part of the repository and is taken as given. -/
structure Module where
  functions : List Function
  globals : List GlobalVariable
  functionIsCallable : Nat → Nat → Bool

/-- The function with id `f`. -/
def Module.function? (M : Module) (f : Nat) : Option Function := M.functions.find? (·.id == f)

/-- Whether `f` names a function with a body in the module. -/
def Module.isDefined (M : Module) (f : Nat) : Bool :=
  match M.function? f with
  | some F => !F.isDeclaration
  | none => false

theorem Module.function?_id {M : Module} {f : Nat} {F : Function} (h : M.function? f = some F) :
    F.id = f := by
  simpa using List.find?_some h

theorem Module.mem_of_function? {M : Module} {f : Nat} {F : Function}
    (h : M.function? f = some F) : F ∈ M.functions :=
  List.mem_of_find?_eq_some h

end DSA
