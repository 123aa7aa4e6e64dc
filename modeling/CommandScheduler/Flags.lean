import CommandScheduler.Inspect

/-!
# Flags — what a chain remembers while it is resolved

Two bits of one byte have a meaning; the others are kept as they are.  Flags only ever get set: a
chain that is forked or returning stays so for every later stage.
-/

namespace CommandScheduler

/-- The flags threaded through the stages of a chain. -/
structure Flags where
  byte : UInt8 := 0
  deriving DecidableEq

namespace Flags

def initial : Flags := {}

def setForked (flags : Flags) : Flags :=
  { byte := flags.byte ||| 1 }

/-- Marks the chain as returning its result to the frame it runs in. -/
def setReturn (flags : Flags) : Flags :=
  { byte := flags.byte ||| 2 }

/-- Whether an error of one source leaves its siblings running. -/
def isForked (flags : Flags) : Bool :=
  flags.byte &&& 1 != 0

/-- Whether the result goes to the frame as well. -/
def isReturn (flags : Flags) : Bool :=
  flags.byte &&& 2 != 0

def forkedIf (flags : Flags) (forked : Bool) : Flags :=
  if forked then flags.setForked else flags

def returnIf (flags : Flags) (returning : Bool) : Flags :=
  if returning then flags.setReturn else flags

def inspect (flags : Flags) : String :=
  Inspect.tuple "ChainModifiers" [Inspect.nat flags.byte.toNat]

/-! ## Laws of the flags -/

theorem masked_or (byte byte' mask : UInt8) :
    (byte ||| byte') &&& mask = (byte &&& mask) ||| (byte' &&& mask) := by
  rw [← UInt8.toBitVec_inj]
  ext i
  simp only [UInt8.toBitVec_and, UInt8.toBitVec_or, BitVec.getElem_and, BitVec.getElem_or]
  exact Bool.and_or_distrib_right _ _ _

@[simp]
theorem isReturn_forkedIf (flags : Flags) (forked : Bool) :
    (flags.forkedIf forked).isReturn = flags.isReturn := by
  cases forked with
  | false => rfl
  | true =>
    have apart : (1 : UInt8) &&& 2 = 0 := rfl
    simp [forkedIf, setForked, isReturn, masked_or, apart]

@[simp]
theorem isForked_forkedIf (flags : Flags) (forked : Bool) :
    (flags.forkedIf forked).isForked = (flags.isForked || forked) := by
  cases forked with
  | false => simp [forkedIf]
  | true =>
    simp [forkedIf, setForked, isForked, masked_or]

@[simp]
theorem isForked_setReturn (flags : Flags) : flags.setReturn.isForked = flags.isForked := by
  have apart : (2 : UInt8) &&& 1 = 0 := rfl
  simp [setReturn, isForked, masked_or, apart]

@[simp]
theorem isReturn_setReturn (flags : Flags) : flags.setReturn.isReturn = true := by
  simp [setReturn, isReturn, masked_or]

/-- Only the first of two raises counts. -/
theorem forkedIf_forkedIf (flags : Flags) (forked forked' : Bool) :
    (flags.forkedIf forked).forkedIf forked' = flags.forkedIf (forked || forked') := by
  cases forked <;> cases forked' <;> simp [forkedIf, setForked, UInt8.or_assoc]

end Flags
end CommandScheduler
