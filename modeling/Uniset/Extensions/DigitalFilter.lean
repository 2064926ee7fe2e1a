import Uniset.Lib.Floats
import Uniset.Lib.GuardedRun
import Uniset.Lib.LastValues
import Mathlib.Data.List.Sort
import Mathlib.Data.Rat.Sqrt

/-! The digital filter: a window of values with a sorted copy, under its operations in any order. -/

namespace Uniset.Extensions

open Uniset.Lib

/-- The arithmetic of double precision. -/
class Doubles (D : Type) extends Add D, Sub D, Mul D, Div D, BEq D, IntCast D where
  less : D → D → Bool
  sqrt : D → D
  fabs : D → D
  lroundf : D → Int

open Doubles (less sqrt fabs lroundf)

variable {D : Type}

/-- What belongs to the second level, which has no window, is left out. -/
structure DigitalFilter (D : Type) where
  buf : List Int
  maxsize : Nat
  mvec : List Int
  mvec_sorted : Bool
  w : List D
  lsparam : D
  ls : D
  M : D
  S : D
  thr : Int
  prev : Int
  coeff_prev : D
  coeff_new : D
  deriving DecidableEq

section Operations

variable [Doubles D]

namespace DigitalFilter

def sort (l : List Int) : List Int := l.insertionSort (· ≤ ·)

def resize {α : Type} (n : Nat) (a : α) (l : List α) : List α :=
  l.take n ++ List.replicate (n - l.length) a

def sum (l : List Int) : D := l.foldl (fun s i => s + (i : D)) ((0 : Int) : D)

/-- The weights that all values have at first. -/
def evenly (maxsize : Nat) : List D :=
  .replicate maxsize (((1 : Int) : D) / ((maxsize : Int) : D))

def init (f : DigitalFilter D) (val : Int) : DigitalFilter D :=
  { f with buf := .replicate f.maxsize val, w := evenly f.maxsize }

def new (bufsize : Nat) (lsq : D) (iir_thr : Int) (iir_coeff_prev iir_coeff_new : D) :
    DigitalFilter D :=
  let zero : D := ((0 : Int) : D)
  init ⟨.replicate bufsize 0, bufsize, [], false, .replicate bufsize zero, lsq, zero, zero, zero,
    iir_thr, 0, iir_coeff_prev, iir_coeff_new⟩ 0

def setSettings (f : DigitalFilter D) (bufsize : Nat) (lsq : D) (iir_thr : Int)
    (iir_coeff_prev iir_coeff_new : D) : DigitalFilter D :=
  let maxsize := if bufsize < 1 then 1 else bufsize
  -- the number of those that are too many is an `int`
  let buf := if maxsize < f.buf.length then f.buf.drop (cutTo 32 (f.buf.length - maxsize)).toNat
    else f.buf
  { f with
    maxsize
    coeff_prev := iir_coeff_prev
    coeff_new := iir_coeff_new
    thr := if 0 < iir_thr then iir_thr else f.thr
    buf := resize maxsize 0 buf
    w := if f.w.length ≠ maxsize ∨ (lsq != f.lsparam) = true then evenly maxsize else f.w
    lsparam := lsq
    mvec := resize maxsize 0 f.mvec }

/-- None when there is nothing to be taken from the buffer. -/
def add (f : DigitalFilter D) (newval : Int) : Option (DigitalFilter D) :=
  match f.buf with
  | [] => none
  | _ :: buf => some { f with buf := buf ++ [newval] }

/-- The mean of the values that are not too far from the mean of all. -/
def firstLevel (f : DigitalFilter D) : D × DigitalFilter D :=
  let size : D := ((f.buf.length : Int) : D)
  let zero : D := ((0 : Int) : D)
  let M : D := sum f.buf / size
  let S : D := sqrt
    (f.buf.foldl (fun (s : D) (i : Int) => s + (M - (i : D)) * (M - (i : D))) zero / size)
  let near : List Int := f.buf.filter fun (i : Int) => less (fabs (M - (i : D))) (S * ((2 : Int) : D))
  (if S == zero then M else if near.length = 0 then M else sum near / ((near.length : Int) : D),
    { f with M, S })

def filter1 (f : DigitalFilter D) (newval : Int) : Option (Int × DigitalFilter D) :=
  if f.maxsize < 1 then some (newval, f)
  else do
    let f ← f.add newval
    let (mean, f) := f.firstLevel
    return (lroundf mean, f)

def median (f : DigitalFilter D) (newval : Int) : Option (Int × DigitalFilter D) :=
  if f.maxsize < 1 then some (newval, f)
  else do
    let f ← f.add newval
    let f := { f with mvec := sort f.buf, mvec_sorted := true }
    let val ← f.mvec[f.maxsize / 2]?
    return (val, f)

/-- None when there is no such element. -/
def currentMedian (f : DigitalFilter D) : Option (Int × DigitalFilter D) := do
  let f := if f.mvec_sorted then f else { f with mvec := sort f.buf }
  let val ← f.mvec[f.maxsize / 2]?
  return (val, f)

/-- None also when there are too few values or weights. -/
def leastsqr (f : DigitalFilter D) (newval : Int) : Option (Int × DigitalFilter D) := do
  let f ← f.add newval
  if f.buf.length < f.maxsize ∨ f.w.length < f.maxsize then none
  else
    let pairs := (f.buf.zip f.w).take f.maxsize
    let ls := pairs.foldl (fun s (i, k) => s + (i : D) * k) ((0 : Int) : D)
    let er := (newval : D) - ls
    let u := ((2 : Int) : D) * (f.lsparam / ((f.maxsize : Int) : D)) * er
    let w := (pairs.map fun (i, k) => k + (i : D) * u) ++ f.w.drop f.maxsize
    return (lroundf ls, { f with ls, w })

/-- A value so far from the last one that the filter starts again from it. -/
def jumps (f : DigitalFilter D) (newval : Int) : Bool :=
  cutTo 32 (f.prev + f.thr) < newval || newval < cutTo 32 (f.prev - f.thr) || f.maxsize < 1

def filterIIR (f : DigitalFilter D) (newval : Int) : Option (Int × DigitalFilter D) :=
  if f.jumps newval then
    let f := if 0 < f.maxsize then f.init newval else f
    some (newval, { f with prev := newval })
  else do
    let f ← f.add newval
    let aver : D := sum f.buf / ((f.maxsize : Int) : D)
    let prev := lroundf ((f.coeff_prev * (f.prev : D) + f.coeff_new * aver) /
      (f.coeff_prev + f.coeff_new))
    return (prev, { f with prev })

end DigitalFilter

/-! ## The window under calls in any order -/

inductive FilterCall (D : Type) where
  | setSettings (bufsize : Nat) (lsq : D) (iir_thr : Int) (iir_coeff_prev iir_coeff_new : D)
  | init (val : Int)
  | add (newval : Int)
  | median (newval : Int)
  | filter1 (newval : Int)
  | leastsqr (newval : Int)
  | filterIIR (newval : Int)
  | currentMedian

namespace DigitalFilter

def call (f : DigitalFilter D) : FilterCall D → Option (DigitalFilter D)
  | .setSettings bufsize lsq iir_thr iir_coeff_prev iir_coeff_new =>
    some (f.setSettings bufsize lsq iir_thr iir_coeff_prev iir_coeff_new)
  | .init val => some (f.init val)
  | .add newval => f.add newval
  | .median newval => (f.median newval).map Prod.snd
  | .filter1 newval => (f.filter1 newval).map Prod.snd
  | .leastsqr newval => (f.leastsqr newval).map Prod.snd
  | .filterIIR newval => (f.filterIIR newval).map Prod.snd
  | .currentMedian => f.currentMedian.map Prod.snd

end DigitalFilter

/-- What there has been since the last init: its value, whether the window has become longer, and the
values added, the last one at the end. -/
structure FilterHistory where
  filled : Int
  grown : Bool
  added : List Int
  deriving DecidableEq

/-- A filter with its history. -/
structure FilterRun (D : Type) where
  filter : DigitalFilter D
  history : FilterHistory
  deriving DecidableEq

namespace FilterRun

def start (bufsize : Nat) (lsq : D) (iir_thr : Int) (iir_coeff_prev iir_coeff_new : D) :
    FilterRun D :=
  ⟨.new bufsize lsq iir_thr iir_coeff_prev iir_coeff_new, ⟨0, false, []⟩⟩

/-- The history after a call that gives the filter `f`. -/
def follow (s : FilterRun D) (f : DigitalFilter D) : FilterCall D → FilterHistory
  | .setSettings .. =>
    { s.history with grown := s.history.grown || decide (s.filter.maxsize < f.maxsize) }
  | .init val => ⟨val, false, []⟩
  | .add newval | .median newval | .filter1 newval | .leastsqr newval =>
    { s.history with added := s.history.added ++ [newval] }
  | .filterIIR newval =>
    if s.filter.jumps newval then ⟨newval, false, []⟩
    else { s.history with added := s.history.added ++ [newval] }
  | .currentMedian => s.history

def step (s : FilterRun D) (c : FilterCall D) : Option (FilterRun D) :=
  (s.filter.call c).map fun f => ⟨f, s.follow f c⟩

/-- What a place may show that is older than the values added. -/
def Older (h : FilterHistory) (x : Int) : Prop := x = h.filled ∨ h.grown = true ∧ x = 0

/-- The window has the last values added since the last init, every call finds what it takes, and the
median is that of the window. -/
structure Keeps (s : FilterRun D) : Prop where
  window : ShowsLast (Older s.history) s.filter.maxsize s.history.added s.filter.buf
  defined : ∀ c, s.filter.call c ≠ none
  median : ∃ m, s.filter.currentMedian.map Prod.fst = some m ∧
    (DigitalFilter.sort s.filter.buf)[s.filter.maxsize / 2]? = some m

/-- The call puts no other values into the window than it has. -/
def SameValues (s : FilterRun D) : FilterCall D → Prop
  | .setSettings bufsize .. => max bufsize 1 = s.filter.maxsize
  | .init val => ∀ x ∈ s.filter.buf, x = val
  | .add newval | .filter1 newval | .leastsqr newval => s.filter.buf.head? = some newval
  | .filterIIR newval =>
    if s.filter.jumps newval then ∀ x ∈ s.filter.buf, x = newval
    else s.filter.buf.head? = some newval
  | .median _ | .currentMedian => True

/-- The window is made longer only when the last values added are zeros, or none, and shorter by fewer
places than an `int` can count. -/
def Resizes (s : FilterRun D) : FilterCall D → Prop
  | .setSettings bufsize .. =>
    (s.filter.maxsize < max bufsize 1 → ∀ x ∈ s.history.added.rtake (max bufsize 1), x = 0) ∧
      s.filter.maxsize - max bufsize 1 < 2 ^ 31
  | _ => True

/-- After the first call of `median` its copy is renewed by `median` alone. -/
def Careful (s : FilterRun D) (c : FilterCall D) : Prop :=
  s.Resizes c ∧ (s.filter.mvec_sorted = true → s.SameValues c)

end FilterRun

end Operations

namespace DigitalFilter

variable {f g : DigitalFilter D} {v : Int}

theorem sort_congr {l l' : List Int} (h : l.Perm l') : sort l = sort l' :=
  ((List.perm_insertionSort _ l).trans (h.trans (List.perm_insertionSort _ l').symm)).eq_of_pairwise'
    (List.pairwise_insertionSort _ l) (List.pairwise_insertionSort _ l')

theorem length_sort (l : List Int) : (sort l).length = l.length := List.length_insertionSort _ l

theorem resize_of_length {α : Type} {n : Nat} {a : α} {l : List α} (h : l.length = n) :
    resize n a l = l := by
  rw [resize, h, Nat.sub_self, List.take_of_length_le (Nat.le_of_eq h)]
  exact List.append_nil l

/-- The window is pushed, and all else that its copy and the weights depend on stays. -/
structure Pushed (v : Int) (f g : DigitalFilter D) : Prop where
  buf : g.buf = f.buf.tail ++ [v]
  maxsize : g.maxsize = f.maxsize
  weights : g.w.length = f.w.length

/-- The copy and its mark are left as they are. -/
structure SameCopy (f g : DigitalFilter D) : Prop where
  mvec : g.mvec = f.mvec
  mark : g.mvec_sorted = f.mvec_sorted

theorem add_spec (hbuf : f.buf ≠ []) (v : Int) :
    ∃ g, f.add v = some g ∧ Pushed v f g ∧ SameCopy f g := by
  unfold add
  obtain ⟨x, buf, hx⟩ := List.exists_cons_of_ne_nil hbuf
  rw [hx]
  exact ⟨_, rfl, ⟨by rw [hx, List.tail_cons], rfl, rfl⟩, rfl, rfl⟩

theorem median_spec (hsize : 0 < f.maxsize) (hbuf : f.buf.length = f.maxsize) (v : Int) :
    ∃ n g, f.median v = some (n, g) ∧ Pushed v f g ∧ g.mvec = sort g.buf := by
  have hne : f.buf ≠ [] := List.ne_nil_of_length_pos (hbuf ▸ hsize)
  obtain ⟨g, hg, hpushed, -⟩ := add_spec hne v
  have hlength : g.maxsize / 2 < (sort g.buf).length := by
    rw [length_sort, hpushed.buf, hpushed.maxsize, List.length_append, List.length_tail, hbuf,
      List.length_singleton]
    omega
  unfold median
  rw [if_neg (by omega), hg]
  refine ⟨(sort g.buf)[g.maxsize / 2], { g with mvec := sort g.buf, mvec_sorted := true }, ?_,
    ⟨hpushed.buf, hpushed.maxsize, hpushed.weights⟩, rfl⟩
  dsimp only [Option.bind_eq_bind, Option.bind_some]
  rw [List.getElem?_eq_getElem hlength]
  rfl

theorem currentMedian_spec (hsize : 0 < f.maxsize) (hbuf : f.buf.length = f.maxsize)
    (hcopy : f.mvec_sorted = true → f.mvec = sort f.buf) :
    ∃ m, f.currentMedian = some (m, { f with mvec := sort f.buf }) ∧
      (sort f.buf)[f.maxsize / 2]? = some m := by
  have hlength : f.maxsize / 2 < (sort f.buf).length := by
    rw [length_sort, hbuf]
    omega
  obtain ⟨m, hm⟩ : ∃ m, (sort f.buf)[f.maxsize / 2]? = some m :=
    ⟨_, List.getElem?_eq_getElem hlength⟩
  refine ⟨m, ?_, hm⟩
  unfold currentMedian
  by_cases hsorted : f.mvec_sorted = true
  · rw [if_pos hsorted]
    dsimp only
    rw [hcopy hsorted, hm, ← hcopy hsorted]
    rfl
  · rw [if_neg hsorted]
    dsimp only
    rw [hm]
    rfl

variable [Doubles D]

theorem filter1_spec (hsize : 0 < f.maxsize) (hbuf : f.buf ≠ []) (v : Int) :
    ∃ n g, f.filter1 v = some (n, g) ∧ Pushed v f g ∧ SameCopy f g := by
  obtain ⟨g, hg, hpushed, hcopy⟩ := add_spec hbuf v
  unfold filter1
  rw [if_neg (by omega), hg]
  exact ⟨_, _, rfl, ⟨hpushed.buf, hpushed.maxsize, hpushed.weights⟩, hcopy.mvec, hcopy.mark⟩

theorem leastsqr_spec (hsize : 0 < f.maxsize) (hbuf : f.buf.length = f.maxsize)
    (hw : f.w.length = f.maxsize) (v : Int) :
    ∃ n g, f.leastsqr v = some (n, g) ∧ Pushed v f g ∧ SameCopy f g := by
  have hne : f.buf ≠ [] := List.ne_nil_of_length_pos (hbuf ▸ hsize)
  obtain ⟨g, hg, hpushed, hcopy⟩ := add_spec hne v
  have hlength : g.buf.length = f.maxsize := by
    rw [hpushed.buf, List.length_append, List.length_tail, hbuf, List.length_singleton]
    omega
  have hweights : g.w.length = f.maxsize := hpushed.weights.trans hw
  unfold leastsqr
  rw [hg]
  dsimp only [Option.bind_eq_bind, Option.bind_some]
  rw [if_neg (by rw [hpushed.maxsize]; omega)]
  refine ⟨_, _, rfl, ⟨hpushed.buf, hpushed.maxsize, ?_⟩, hcopy.mvec, hcopy.mark⟩
  simp only [List.length_append, List.length_map, List.length_take, List.length_zip, List.length_drop,
    hlength, hweights, hpushed.maxsize, hw]
  omega

theorem filterIIR_spec (hbuf : f.buf ≠ []) (hjump : f.jumps v = false) :
    ∃ n g, f.filterIIR v = some (n, g) ∧ Pushed v f g ∧ SameCopy f g := by
  obtain ⟨g, hg, hpushed, hcopy⟩ := add_spec hbuf v
  unfold filterIIR
  rw [hjump, hg]
  exact ⟨_, _, rfl, ⟨hpushed.buf, hpushed.maxsize, hpushed.weights⟩, hcopy.mvec, hcopy.mark⟩

theorem filterIIR_of_jumps (hsize : 0 < f.maxsize) (hjump : f.jumps v = true) :
    f.filterIIR v = some (v, { f.init v with prev := v }) := by
  unfold filterIIR
  rw [if_pos hjump, if_pos hsize]

theorem setSettings_buf {bufsize : Nat} (lsq : D) (iir_thr : Int) (iir_coeff_prev iir_coeff_new : D)
    (hbuf : f.buf.length = f.maxsize) (hint : f.maxsize - max bufsize 1 < 2 ^ 31) :
    (f.setSettings bufsize lsq iir_thr iir_coeff_prev iir_coeff_new).buf =
      if f.maxsize < max bufsize 1 then
        f.buf ++ List.replicate (max bufsize 1 - f.maxsize) 0
      else f.buf.drop (f.maxsize - max bufsize 1) := by
  have hmax : (if bufsize < 1 then 1 else bufsize) = max bufsize 1 := by
    split_ifs <;> omega
  unfold setSettings
  dsimp only
  rw [hmax, hbuf]
  generalize max bufsize 1 = n at hint
  by_cases hless : n < f.maxsize
  · have hsub : (cutTo 32 (f.maxsize - n : Int)).toNat = f.maxsize - n := by
      rw [cutTo_of_bounds (j := 31) (by omega) (by omega)]
      omega
    rw [if_pos hless, if_neg (by omega), hsub]
    refine resize_of_length ?_
    rw [List.length_drop, hbuf]
    omega
  · rw [if_neg hless, resize, hbuf, List.take_of_length_le (by omega)]
    split_ifs with hmore
    · rfl
    · rw [Nat.sub_eq_zero_of_le (by omega), Nat.sub_eq_zero_of_le (by omega)]
      exact List.append_nil _

end DigitalFilter

namespace FilterRun

open DigitalFilter

/-- The window as it is claimed to be, with as many weights, and a copy that is of it if it is marked. -/
structure Sound (s : FilterRun D) : Prop where
  window : ShowsLast (Older s.history) s.filter.maxsize s.history.added s.filter.buf
  pos : 0 < s.filter.maxsize
  weights : s.filter.w.length = s.filter.maxsize
  copy : s.filter.mvec_sorted = true → s.filter.mvec = sort s.filter.buf

variable {s t : FilterRun D} {f : DigitalFilter D} {c : FilterCall D} {v : Int}

theorem Sound.buf_ne_nil (h : s.Sound) : s.filter.buf ≠ [] :=
  List.ne_nil_of_length_pos (h.window.length ▸ h.pos)

theorem Sound.push (h : s.Sound) (hf : Pushed v s.filter f)
    (hcopy : f.mvec_sorted = true → f.mvec = sort f.buf) :
    Sound ⟨f, { s.history with added := s.history.added ++ [v] }⟩ := by
  refine ⟨?_, hf.maxsize ▸ h.pos, ?_, hcopy⟩
  · dsimp only
    rw [hf.maxsize, hf.buf]
    exact h.window.push h.pos v
  · dsimp only
    rw [hf.weights, hf.maxsize, h.weights]

theorem Sound.copy_of_push (h : s.Sound) (hf : Pushed v s.filter f) (hcopy : SameCopy s.filter f)
    (hsame : s.filter.mvec_sorted = true → s.filter.buf.head? = some v) :
    f.mvec_sorted = true → f.mvec = sort f.buf := by
  intro hsorted
  rw [hcopy.mark] at hsorted
  obtain ⟨rest, hrest⟩ := List.head?_eq_some_iff.mp (hsame hsorted)
  rw [hcopy.mvec, h.copy hsorted, hf.buf, hrest, List.tail_cons]
  exact sort_congr (List.perm_append_singleton v rest).symm

theorem Sound.init (h : s.Sound) (hbuf : f.buf = .replicate s.filter.maxsize v)
    (hmax : f.maxsize = s.filter.maxsize) (hw : f.w.length = s.filter.maxsize)
    (hcopy : SameCopy s.filter f)
    (hsame : s.filter.mvec_sorted = true → ∀ x ∈ s.filter.buf, x = v) :
    Sound ⟨f, ⟨v, false, []⟩⟩ := by
  refine ⟨?_, hmax ▸ h.pos, hw.trans hmax.symm, fun hsorted => ?_⟩
  · dsimp only
    rw [hmax, hbuf]
    exact .replicate (.inl rfl) _
  · dsimp only at hsorted ⊢
    rw [hcopy.mark] at hsorted
    have hold : s.filter.buf = .replicate s.filter.maxsize v :=
      List.eq_replicate_iff.mpr ⟨h.window.length, hsame hsorted⟩
    rw [hcopy.mvec, h.copy hsorted, hold, hbuf]

variable [Doubles D]

theorem Sound.setSettings (h : s.Sound) {bufsize : Nat} {lsq : D} {iir_thr : Int}
    {iir_coeff_prev iir_coeff_new : D}
    (hsizes : s.Resizes (.setSettings bufsize lsq iir_thr iir_coeff_prev iir_coeff_new))
    (hsame : s.filter.mvec_sorted = true → max bufsize 1 = s.filter.maxsize) :
    Sound ⟨s.filter.setSettings bufsize lsq iir_thr iir_coeff_prev iir_coeff_new,
      s.follow (s.filter.setSettings bufsize lsq iir_thr iir_coeff_prev iir_coeff_new)
        (.setSettings bufsize lsq iir_thr iir_coeff_prev iir_coeff_new)⟩ := by
  obtain ⟨hmore, hint⟩ := hsizes
  have hbuf := setSettings_buf lsq iir_thr iir_coeff_prev iir_coeff_new h.window.length hint
  have hmax : (s.filter.setSettings bufsize lsq iir_thr iir_coeff_prev iir_coeff_new).maxsize =
      max bufsize 1 := by
    change (if bufsize < 1 then 1 else bufsize) = max bufsize 1
    split_ifs <;> omega
  have hweights : (s.filter.setSettings bufsize lsq iir_thr iir_coeff_prev iir_coeff_new).w.length =
      (s.filter.setSettings bufsize lsq iir_thr iir_coeff_prev iir_coeff_new).maxsize := by
    unfold DigitalFilter.setSettings
    dsimp only
    generalize (if bufsize < 1 then 1 else bufsize) = n
    split_ifs with hw
    · exact List.length_replicate
    · exact not_not.mp (not_or.mp hw).1
  have hmvec : (s.filter.setSettings bufsize lsq iir_thr iir_coeff_prev iir_coeff_new).mvec =
      resize (s.filter.setSettings bufsize lsq iir_thr iir_coeff_prev iir_coeff_new).maxsize 0
        s.filter.mvec := rfl
  have hmark : (s.filter.setSettings bufsize lsq iir_thr iir_coeff_prev iir_coeff_new).mvec_sorted =
      s.filter.mvec_sorted := rfl
  generalize s.filter.setSettings bufsize lsq iir_thr iir_coeff_prev iir_coeff_new = f at *
  have hold : ∀ x, Older s.history x →
      Older { s.history with grown := s.history.grown || decide (s.filter.maxsize < f.maxsize) } x := by
    rintro x (hfilled | ⟨hgrown, hzero⟩)
    · exact .inl hfilled
    · exact .inr ⟨Bool.or_eq_true_iff.mpr (.inl hgrown), hzero⟩
  refine ⟨?_, by rw [hmax]; omega, hweights, fun hsorted => ?_⟩
  · have hwindow := h.window.mono hold
    dsimp only [follow]
    rw [hmax] at hwindow ⊢
    rw [hbuf]
    split_ifs with hless
    · exact hwindow.grow hless.le (.inr ⟨by simp [hless], rfl⟩) (hmore hless)
    · exact hwindow.shrink (not_lt.mp hless)
  · rw [hmark] at hsorted
    have hsize := hsame hsorted
    have hcopy : s.filter.mvec.length = s.filter.maxsize := by
      rw [h.copy hsorted, length_sort, h.window.length]
    rw [hmvec, hmax, hsize, resize_of_length hcopy, h.copy hsorted, hbuf, if_neg (by omega), hsize,
      Nat.sub_self, List.drop_zero]

theorem Sound.call (h : s.Sound) (c : FilterCall D) :
    ∃ f, s.filter.call c = some f ∧ (s.Careful c → Sound ⟨f, s.follow f c⟩) := by
  cases c with
  | setSettings bufsize lsq iir_thr iir_coeff_prev iir_coeff_new =>
    exact ⟨_, rfl, fun hc => h.setSettings hc.1 hc.2⟩
  | init val =>
    refine ⟨_, rfl, fun hc => h.init rfl rfl ?_ ⟨rfl, rfl⟩ hc.2⟩
    exact List.length_replicate
  | add newval =>
    obtain ⟨f, hf, hpushed, hcopy⟩ := add_spec h.buf_ne_nil newval
    exact ⟨f, hf, fun hc => h.push hpushed (h.copy_of_push hpushed hcopy hc.2)⟩
  | median newval =>
    obtain ⟨n, f, hf, hpushed, hcopy⟩ := median_spec h.pos h.window.length newval
    exact ⟨f, congrArg (Option.map Prod.snd) hf, fun _ => h.push hpushed fun _ => hcopy⟩
  | filter1 newval =>
    obtain ⟨n, f, hf, hpushed, hcopy⟩ := filter1_spec h.pos h.buf_ne_nil newval
    exact ⟨f, congrArg (Option.map Prod.snd) hf,
      fun hc => h.push hpushed (h.copy_of_push hpushed hcopy hc.2)⟩
  | leastsqr newval =>
    obtain ⟨n, f, hf, hpushed, hcopy⟩ := leastsqr_spec h.pos h.window.length h.weights newval
    exact ⟨f, congrArg (Option.map Prod.snd) hf,
      fun hc => h.push hpushed (h.copy_of_push hpushed hcopy hc.2)⟩
  | filterIIR newval =>
    cases hjump : s.filter.jumps newval with
    | true =>
      refine ⟨_, congrArg (Option.map Prod.snd) (filterIIR_of_jumps h.pos hjump), fun hc => ?_⟩
      have hsame := hc.2
      rw [SameValues, if_pos hjump] at hsame
      rw [follow, if_pos hjump]
      exact h.init rfl rfl List.length_replicate ⟨rfl, rfl⟩ hsame
    | false =>
      obtain ⟨n, f, hf, hpushed, hcopy⟩ := filterIIR_spec h.buf_ne_nil hjump
      refine ⟨f, congrArg (Option.map Prod.snd) hf, fun hc => ?_⟩
      have hsame := hc.2
      rw [SameValues, if_neg (by rw [hjump]; exact Bool.false_ne_true)] at hsame
      rw [follow, if_neg (by rw [hjump]; exact Bool.false_ne_true)]
      exact h.push hpushed (h.copy_of_push hpushed hcopy hsame)
  | currentMedian =>
    obtain ⟨m, hm, -⟩ := currentMedian_spec h.pos h.window.length h.copy
    exact ⟨_, congrArg (Option.map Prod.snd) hm, fun _ => ⟨h.window, h.pos, h.weights, fun _ => rfl⟩⟩

theorem Sound.step (h : s.Sound) (hc : s.Careful c) (ht : s.step c = some t) : t.Sound := by
  obtain ⟨f, hf, hsound⟩ := h.call c
  rw [FilterRun.step, hf] at ht
  cases ht
  exact hsound hc

theorem Sound.keeps (h : s.Sound) : s.Keeps := by
  refine ⟨h.window, fun c hnone => ?_, ?_⟩
  · obtain ⟨f, hf, -⟩ := h.call c
    rw [hf] at hnone
    cases hnone
  · obtain ⟨m, hm, hmedian⟩ := currentMedian_spec h.pos h.window.length h.copy
    exact ⟨m, congrArg (Option.map Prod.fst) hm, hmedian⟩

theorem sound_start {bufsize : Nat} (hsize : 0 < bufsize) (lsq : D) (iir_thr : Int)
    (iir_coeff_prev iir_coeff_new : D) :
    (start bufsize lsq iir_thr iir_coeff_prev iir_coeff_new).Sound :=
  ⟨.replicate (.inl rfl) bufsize, hsize, List.length_replicate, fun h => nomatch h⟩

/-- The window is kept in every state of a careful run of a filter that has one. -/
theorem keeps_of_careful {bufsize : Nat} (hsize : 0 < bufsize) (lsq : D) (iir_thr : Int)
    (iir_coeff_prev iir_coeff_new : D)
    (h : Reaches step Careful (start bufsize lsq iir_thr iir_coeff_prev iir_coeff_new) s) : s.Keeps :=
  Sound.keeps (h.invariant Sound.step (sound_start hsize lsq iir_thr iir_coeff_prev iir_coeff_new))

/-- Exact numbers in place of those of double precision. -/
instance : Doubles ℚ where
  less p q := decide (p < q)
  sqrt := Rat.sqrt
  fabs q := if q < 0 then -q else q
  lroundf q := if q < 0 then -(1 / 2 - q).floor else (q + 1 / 2).floor

/-- A new filter with the defaults, but for its size. -/
def ofSize (bufsize : Nat) : FilterRun ℚ := start bufsize (1 / 5) 10000 (1 / 2) (1 / 2)

theorem keeps_medians : ∃ s, [.add 7, .median 50, .median 20].foldlM step (ofSize 3) = some s ∧
    s.filter.buf = [7, 50, 20] ∧ s.Keeps := by
  refine ⟨_, rfl, rfl, keeps_of_careful (by decide : 0 < 3) (1 / 5) 10000 (1 / 2) (1 / 2) ?_⟩
  refine .head (i := .add 7) ⟨trivial, fun h => nomatch h⟩ rfl ?_
  refine .head (i := .median 50) ⟨trivial, fun _ => trivial⟩ rfl ?_
  refine .head (i := .median 20) ⟨trivial, fun _ => trivial⟩ rfl (.refl _)

/-- After an init the median is that of the values before it. -/
theorem not_keeps_after_init : ∃ s, [.median 50, .median 50, .init 0].foldlM step (ofSize 3) = some s ∧
    s.filter.buf = [0, 0, 0] ∧ s.filter.currentMedian.map Prod.fst = some 50 ∧ ¬ s.Keeps := by
  refine ⟨_, rfl, rfl, rfl, fun h => ?_⟩
  obtain ⟨m, hm, hmedian⟩ := h.median
  have hfirst : some 50 = some m := hm
  have hzero : some 0 = some m := hmedian
  exact absurd (hfirst.trans hzero.symm) (by decide)

end FilterRun

end Uniset.Extensions
