import Uniset.Lib.Floats
import Uniset.Processes.USensorInfo

/-! What an input or output does to a value on its way to the sensor and back: one that has no
calibration, filter, limit or delay, and depends on no other sensor. -/

namespace Uniset.Extensions

open Uniset.Lib Uniset.Processes

theorem ofInt32_toNat (x : UInt32) : UInt32.ofInt x.toNat = x := by
  have hx := x.toNat_lt
  refine UInt32.toNat_inj.mp ?_
  rw [UInt32.ofInt, UInt32.toNat_ofNat']
  omega

theorem ofInt32_cutTo (v : Int) : UInt32.ofInt (cutTo 32 v) = UInt32.ofInt v :=
  congrArg (fun v : Int => UInt32.ofNat v.toNat) Int.bmod_emod

/-- The settings that remain; `dfsize` is the length of the buffer of the filter, which is there even if
nothing is filtered. -/
structure IOBase where
  stype : IOType
  invert : Bool
  rawdata : Bool
  nofilter : Bool
  dfsize : Nat
  deriving DecidableEq

namespace IOBase

variable (it : IOBase)

def isDiscrete : Prop := it.stype = .DI ∨ it.stype = .DO

instance : Decidable it.isDiscrete := inferInstanceAs (Decidable (it.stype = .DI ∨ it.stype = .DO))

/-- The filter takes an `int`. -/
def filterRC (val : Int) : Int := cutTo 32 val

def processingAsAI (val : Int) : Int :=
  if it.isDiscrete then (if val ≠ 0 then 1 else 0)
  else if !it.nofilter ∧ 1 < it.dfsize then filterRC val
  else val

def processingFasAI (fval : UInt32) : Int :=
  if it.isDiscrete then (if magnitude32 fval ≠ 0 then 1 else 0)
  else
    let val := if it.rawdata then (fval.toNat : Int) else lroundf fval
    if it.nofilter then val else filterRC val

def processingAsDI (set : Bool) : Int := if set != it.invert then 1 else 0

def processingAsDO (value : Int) : Bool := decide (value ≠ 0) != it.invert

/-- What is read of an analog one. -/
def processingFasAO (value : Int) : UInt32 :=
  if it.rawdata then UInt32.ofInt value else floatOfLong value

/-- Without the filter nothing is cut. -/
def places : Nat := if it.nofilter then 63 else 31

theorem places_lt : it.places < 64 := by
  unfold places
  split_ifs <;> decide

variable {it : IOBase}

/-- The filter is passed through, or there is none. -/
theorem processingFasAI_integer (hanalog : ¬it.isDiscrete) (hraw : it.rawdata = false) (f : UInt32) :
    it.processingFasAI f = cutTo (it.places + 1) (lroundf f) := by
  obtain ⟨hlow, hhigh⟩ := lroundf_bounds f
  unfold processingFasAI places filterRC
  rw [if_neg hanalog, hraw]
  generalize lroundf f = v at hlow hhigh
  by_cases hfilter : it.nofilter = true
  · simp only [hfilter, Bool.false_eq_true, if_false, if_true]
    exact (cutTo_of_bounds hlow hhigh).symm
  · simp only [hfilter, Bool.false_eq_true, if_false]

theorem processingFasAO_raw (hanalog : ¬it.isDiscrete) (hraw : it.rawdata = true) (f : UInt32) :
    it.processingFasAO (it.processingFasAI f) = f := by
  unfold processingFasAO processingFasAI filterRC
  simp only [if_neg hanalog, hraw, if_true]
  by_cases hfilter : it.nofilter = true
  · simp only [hfilter, if_true, ofInt32_toNat]
  · simp only [hfilter, Bool.false_eq_true, if_false, ofInt32_cutTo, ofInt32_toNat]

/-- A float that a sensor keeps: all of them by their bits, else the integers that have room. -/
def Keeps (it : IOBase) (f : UInt32) : Prop :=
  it.rawdata = true ∨ ∃ n : Int, IsInteger f n ∧ -2 ^ it.places ≤ n ∧ n < 2 ^ it.places

theorem processingFasAO_processingFasAI_iff (hanalog : ¬it.isDiscrete) (f : UInt32) :
    it.processingFasAO (it.processingFasAI f) = f ↔ it.Keeps f := by
  cases hraw : it.rawdata with
  | true => exact iff_of_true (processingFasAO_raw hanalog hraw f) (.inl hraw)
  | false =>
    rw [processingFasAI_integer hanalog hraw, processingFasAO, if_neg (by simp [hraw]),
      floatOfLong_lroundf_iff it.places_lt, Keeps, or_iff_right (by simp [hraw])]

/-- A double is kept if it is a float that is. -/
theorem doubleOfFloat_processingFasAO_iff (hanalog : ¬it.isDiscrete) (d : UInt64) :
    doubleOfFloat (it.processingFasAO (it.processingFasAI (floatOfDouble d))) = d ↔
      ∃ f, doubleOfFloat f = d ∧ it.Keeps f := by
  cases hraw : it.rawdata with
  | true =>
    rw [processingFasAO_raw hanalog hraw, doubleOfFloat_floatOfDouble_iff]
    exact exists_congr fun f => (and_iff_left (.inl hraw)).symm
  | false =>
    rw [processingFasAI_integer hanalog hraw, processingFasAO, if_neg (by simp [hraw]),
      doubleOfFloat_floatOfLong_iff it.places_lt]
    exact exists_congr fun f => and_congr_right fun _ => (or_iff_right (by simp [hraw])).symm

end IOBase

end Uniset.Extensions
