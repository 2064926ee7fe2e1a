import Uniset.ModbusMaster.MBExchange

/-! What is exchanged in the modes of the process and of the devices. -/

namespace Uniset.ModbusMaster

open Uniset.Lib Uniset.Modbus ExchangeMode MBExchange

/-- The process or the device is in a mode. -/
def InMode (s : MBExchange) (d : Nat) (m : ExchangeMode) : Prop :=
  s.exchangeMode = m ∨ s.mode d = m

instance (s : MBExchange) (d : Nat) (m : ExchangeMode) : Decidable (InMode s d m) :=
  inferInstanceAs (Decidable (_ ∨ _))

/-- The registers whose sensors were followed last while the exchange was skipped. -/
abbrev Followed := Nat → Nat → Bool

/-- The registers of a value, as far as they are written, are followed or not. -/
def mark (s : MBExchange) (g : Followed) (d k n : Nat) (b : Bool) : Followed :=
  Function.update g d fun j =>
    if k ≤ j ∧ j < k + n then b && isWriteFunction (s.regs d j).mbfunc else g d j

/-- A change of a sensor that is told, or a value that is asked for, while the exchange is skipped. -/
def follow (s : MBExchange) (g : Followed) : ExchangeStep → Followed
  | .sensorInfo d k vs _ => mark s g d k vs.length
      (InMode s d emSkipExchange ∧ !s.force_out ∧ isWriteFunction (s.regs d k).mbfunc)
  | .updateSM d k n ok =>
    if InMode s d emSkipExchange ∧ s.force_out ∧ s.updates d k ∧ ok ∧
        isWriteFunction (s.regs d k).mbfunc then mark s g d k n true
    else g
  | .preInitRead _ vs _ =>
    match s.reading with
    | some e => mark s g e.dev e.ri vs.length false
    | none => g
  | _ => g

def watch (w : MBExchange × Followed) (step : ExchangeStep) : MBExchange × Followed :=
  (w.1.step step, follow w.1 w.2 step)

def Query.isWrite : Query → Bool
  | .read _ _ _ => false
  | .write _ _ _ => true

/-- What is sent and saved in a step is what the modes allow, and a value that has been followed is
sent as the sensor has it. -/
structure Obeys (w : MBExchange × Followed) (step : ExchangeStep) : Prop where
  readOnly : ∀ d q, w.1.sent step = some (d, q) → InMode w.1 d emReadOnly → q.isWrite = false
  writeOnly : ∀ d q, w.1.sent step = some (d, q) → InMode w.1 d emWriteOnly → q.isWrite = true
  notSaved : ∀ d, w.1.saved step = some d →
    ¬InMode w.1 d emWriteOnly ∧ ¬InMode w.1 d emSkipSaveToSM
  skipped : ∀ d q, w.1.sent step = some (d, q) → ¬InMode w.1 d emSkipExchange
  current : ∀ d pollfactor it size reply, step = .poll d pollfactor it size reply →
    ∀ mbfunc mbreg data, w.1.sent step = some (d, .write mbfunc mbreg data) →
      ∀ i v, data[i]? = some v → w.2 d (it + i) = true →
        v = dataOf mbfunc { w.1.regs d (it + i) with mbval := w.1.value d (it + i) }

/-- A device in a mode of its own has no registers that are not to be exchanged in it; registers are
read before the exchange in the modes that let all be exchanged; and a sensor that changes while the
exchange is skipped has a register that is initialised. -/
def Allowed (s : MBExchange) : ExchangeStep → Prop
  | .poll d pollfactor it _ _ => s.polls d pollfactor it = true →
      let p := s.regs d it
      (s.mode d = emReadOnly → isWriteFunction p.mbfunc = false) ∧
      (s.mode d = emWriteOnly → isRead p.mbfunc = false) ∧
      (isRead p.mbfunc = true → ∀ k, it ≤ k → k < it + p.q_count →
        isWriteFunction (s.regs d k).mbfunc = false)
  | .preInitRead reply _ ok => ∀ e, s.reading = some e →
      ¬InMode s e.dev emWriteOnly ∧ ¬InMode s e.dev emSkipExchange ∧
      (InMode s e.dev emSkipSaveToSM → (accepted e.mbfunc e.rnum reply && ok) = false)
  | .sensorInfo d k _ ok => InMode s d emSkipExchange → s.force_out = false →
      isWriteFunction (s.regs d k).mbfunc = true → (s.regs d k).mb_initOK = true ∧ ok = true
  | _ => True

/-- A register that has been followed has the value of its sensor. -/
def UpToDate (w : MBExchange × Followed) : Prop :=
  ∀ d k, w.2 d k = true → (w.1.regs d k).mbval = w.1.value d k ∧ w.1.cached d k = w.1.value d k ∧
    isWriteFunction (w.1.regs d k).mbfunc = true

variable {s : MBExchange} {g : Followed}

theorem isUpdateSM_read {exchangeMode mode : ExchangeMode}
    (h : isUpdateSM exchangeMode mode false = true) :
    ¬(exchangeMode = emWriteOnly ∨ mode = emWriteOnly) ∧
      ¬(exchangeMode = emSkipSaveToSM ∨ mode = emSkipSaveToSM) := by
  cases exchangeMode <;> cases mode <;> simp_all [isUpdateSM]

theorem isUpdateSM_skip {exchangeMode mode : ExchangeMode}
    (h : exchangeMode = emSkipExchange ∨ mode = emSkipExchange) :
    isUpdateSM exchangeMode mode true = true := by
  rw [isUpdateSM, if_pos h]

/-! ## The words of a value -/

theorem putWords_put (f : Nat → ModbusData) (k : Nat) (vs : List ModbusData) (j : Nat) :
    putWords f k vs (fun _ v => v) j =
      if k ≤ j ∧ j < k + vs.length then vs.getD (j - k) 0 else f j := rfl

theorem putWords_words (f g : Nat → ModbusData) (k n j : Nat) :
    putWords f k (words g k n) (fun _ v => v) j = if k ≤ j ∧ j < k + n then g j else f j := by
  rw [putWords_put, length_words]
  split_ifs with hj
  · exact getD_words g hj.1 hj.2
  · rfl

/-- A value is taken to its registers. -/
def Takes (s : MBExchange) (d k : Nat) (ok : Bool) : Prop :=
  s.updates d k = true ∧ ok = true ∧ isWriteFunction (s.regs d k).mbfunc = true

theorem updateRSProperty_takes {d k : Nat} {ok : Bool} (n : Nat) (force : Bool)
    (h : Takes s d k ok) : let s' := s.updateRSProperty d k n force ok
    s'.value = s.value ∧ ∀ d' j, (s'.regs d' j).mbfunc = (s.regs d' j).mbfunc ∧
      if d' = d ∧ k ≤ j ∧ j < k + n then (s'.regs d' j).mbval = s'.cached d' j ∧
        s'.cached d' j = if force then s.value d' j else s.cached d' j
      else (s'.regs d' j).mbval = (s.regs d' j).mbval ∧ s'.cached d' j = s.cached d' j := by
  obtain ⟨hupdates, rfl, hwrite⟩ := h
  -- what has been told of the sensor, once it has been asked for
  obtain ⟨t, hstep, hregs, hvalue, hcached⟩ : ∃ t : MBExchange,
      s.updateRSProperty d k n force true =
        t.setRegs d (setWords (t.regs d) k (words (t.cached d) k n)) ∧
      t.regs = s.regs ∧ t.value = s.value ∧ ∀ d' j, t.cached d' j =
        if (d' = d ∧ k ≤ j ∧ j < k + n) ∧ force then s.value d' j else s.cached d' j := by
    unfold updateRSProperty
    rw [if_neg (by simp [hupdates]), if_neg (by simp), if_pos hwrite]
    cases force with
    | false => exact ⟨s, rfl, rfl, rfl, fun _ _ => by simp⟩
    | true =>
      refine ⟨s.setCached d k (words (s.value d) k n), rfl, rfl, rfl, fun d' j => ?_⟩
      by_cases hd : d' = d
      · subst hd
        simp [setCached, putWords_words]
      · simp [setCached, hd]
  rw [hstep]
  refine ⟨hvalue, fun d' j => ?_⟩
  have hcached' := hcached d' j
  by_cases hd : d' = d
  · subst hd
    simp only [setRegs, Function.update_self, setWords_mbval, setWords_mbfunc, length_words, hregs,
      true_and]
    split_ifs with hj hforce
    · rw [if_pos ⟨⟨rfl, hj⟩, hforce⟩] at hcached'
      exact ⟨getD_words _ hj.1 hj.2, hcached'⟩
    · rw [if_neg fun h => hforce h.2] at hcached'
      exact ⟨getD_words _ hj.1 hj.2, hcached'⟩
    · rw [if_neg fun h => hj h.1.2] at hcached'
      exact ⟨rfl, hcached'⟩
  · simp only [setRegs, Function.update_of_ne hd, hregs, hd, false_and, if_false, true_and]
    rw [if_neg fun h => hd h.1.1] at hcached'
    exact hcached'

theorem updateRSProperty_not {d k : Nat} {ok : Bool} (n : Nat) (force : Bool)
    (h : ¬Takes s d k ok) : let s' := s.updateRSProperty d k n force ok
    s'.value = s.value ∧ s'.cached = s.cached ∧ ∀ d' j,
      (s'.regs d' j).mbfunc = (s.regs d' j).mbfunc ∧ (s'.regs d' j).mbval = (s.regs d' j).mbval := by
  unfold updateRSProperty
  split_ifs with hupdates hok hwrite
  · exact ⟨rfl, rfl, fun _ _ => ⟨rfl, rfl⟩⟩
  · exact ⟨rfl, rfl, fun d' j => ⟨update_regs_same RegInfo.mbfunc s.regs (by rfl) d' j,
      update_regs_same RegInfo.mbval s.regs (by rfl) d' j⟩⟩
  · exact absurd ⟨by simpa using hupdates, by simpa using hok, hwrite⟩ h
  · exact absurd ⟨by simpa using hupdates, by simpa using hok, hwrite⟩ h
  · exact ⟨rfl, rfl, fun _ _ => ⟨rfl, rfl⟩⟩

/-- Registers that are followed stay so when values are brought together. -/
theorem UpToDate.updateRSProperty (h : UpToDate (s, g)) (d k n : Nat) (force ok : Bool) :
    UpToDate (s.updateRSProperty d k n force ok, g) := by
  intro d' j hg
  obtain ⟨hval, hcached, hwrite⟩ := h d' j hg
  dsimp only at hval hcached hwrite ⊢
  by_cases htakes : Takes s d k ok
  · obtain ⟨hvalue, hregs⟩ := updateRSProperty_takes n force htakes
    obtain ⟨hfunc, hj⟩ := hregs d' j
    rw [hvalue, hfunc]
    split_ifs at hj with hin hforce
    · exact ⟨hj.1.trans hj.2, hj.2, hwrite⟩
    · exact ⟨hj.1.trans (hj.2.trans hcached), hj.2.trans hcached, hwrite⟩
    · exact ⟨hj.1.trans hval, hj.2.trans hcached, hwrite⟩
  · obtain ⟨hvalue, hcached', hregs⟩ := updateRSProperty_not n force htakes
    obtain ⟨hfunc, hj⟩ := hregs d' j
    rw [hvalue, hfunc, hj, hcached']
    exact ⟨hval, hcached, hwrite⟩

/-! ## The steps -/

theorem mark_true {d k n d' j : Nat} {b : Bool} (h : mark s g d k n b d' j = true) :
    (d' = d ∧ k ≤ j ∧ j < k + n) ∧ b = true ∧ isWriteFunction (s.regs d j).mbfunc = true ∨
      ¬(d' = d ∧ k ≤ j ∧ j < k + n) ∧ g d' j = true := by
  unfold mark at h
  by_cases hd : d' = d
  · subst hd
    simp only [Function.update_self] at h
    split_ifs at h with hj
    · rw [Bool.and_eq_true] at h
      exact .inl ⟨⟨rfl, hj⟩, h⟩
    · exact .inr ⟨fun hin => hj hin.2, h⟩
  · rw [Function.update_of_ne hd] at h
    exact .inr ⟨fun hin => hd hin.1, h⟩

theorem setValue_other (vs : List ModbusData) {d k d' j : Nat}
    (h : ¬(d' = d ∧ k ≤ j ∧ j < k + vs.length)) :
    (s.setValue d k vs).value d' j = s.value d' j := by
  by_cases hd : d' = d
  · subst hd
    simp only [setValue, Function.update_self, putWords_put]
    rw [if_neg fun hj => h ⟨rfl, hj⟩]
  · simp [setValue, hd]

theorem setCached_other (vs : List ModbusData) {d k d' j : Nat}
    (h : ¬(d' = d ∧ k ≤ j ∧ j < k + vs.length)) :
    (s.setCached d k vs).cached d' j = s.cached d' j := by
  by_cases hd : d' = d
  · subst hd
    simp only [setCached, Function.update_self, putWords_put]
    rw [if_neg fun hj => h ⟨rfl, hj⟩]
  · simp [setCached, hd]

theorem mark_false {d k n d' j : Nat} :
    mark s g d k n false d' j = true ↔ ¬(d' = d ∧ k ≤ j ∧ j < k + n) ∧ g d' j = true := by
  unfold mark
  by_cases hd : d' = d
  · subst hd
    rw [Function.update_self]
    split_ifs with hj
    · simp [hj]
    · exact ⟨fun hg => ⟨fun hin => hj hin.2, hg⟩, And.right⟩
  · simp [hd]

/-- Where nothing has changed, the registers are followed as before. -/
theorem UpToDate.of_eq (h : UpToDate (s, g)) {s' : MBExchange} {g' : Followed}
    (heq : ∀ d j, g' d j = true → g d j = true ∧ (s'.regs d j).mbval = (s.regs d j).mbval ∧
      s'.cached d j = s.cached d j ∧ s'.value d j = s.value d j ∧
      (s'.regs d j).mbfunc = (s.regs d j).mbfunc) : UpToDate (s', g') := by
  intro d j hg
  obtain ⟨hg', hval, hcached, hvalue, hfunc⟩ := heq d j hg
  dsimp only
  rw [hval, hcached, hvalue, hfunc]
  exact h d j hg'

theorem follows_setValue (h : UpToDate (s, g)) (d k : Nat) (vs : List ModbusData) :
    UpToDate (s.setValue d k vs, mark s g d k vs.length false) :=
  h.of_eq fun _ _ hg => ⟨(mark_false.mp hg).2, rfl, rfl, setValue_other vs (mark_false.mp hg).1, rfl⟩

theorem follows_sensorInfo (h : UpToDate (s, g)) {d k : Nat} {vs : List ModbusData} {ok : Bool}
    (hallowed : Allowed s (.sensorInfo d k vs ok)) :
    UpToDate (watch (s, g) (.sensorInfo d k vs ok)) := by
  have hvalue := follows_setValue h d k vs
  have hcached : UpToDate ((s.setValue d k vs).setCached d k vs, mark s g d k vs.length false) :=
    hvalue.of_eq fun d' j hg => ⟨hg, rfl, setCached_other vs (mark_false.mp hg).1, rfl, rfl⟩
  have hothers : UpToDate (s.sensorInfo d k vs ok, mark s g d k vs.length false) := by
    unfold MBExchange.sensorInfo
    dsimp only
    split_ifs
    · exact hvalue
    · exact hcached.updateRSProperty d k vs.length false ok
  intro d' j hg
  rcases mark_true hg with ⟨⟨rfl, hj⟩, hmode, hword⟩ | hout
  · obtain ⟨hskip, hforce, hwrite⟩ := of_decide_eq_true hmode
    have hforce : s.force_out = false := by simpa using hforce
    obtain ⟨hinit, rfl⟩ := hallowed hskip hforce hwrite
    have htakes : Takes ((s.setValue d' k vs).setCached d' k vs) d' k true := by
      refine ⟨?_, rfl, hwrite⟩
      unfold updates
      rw [Bool.and_eq_true]
      refine ⟨?_, hinit⟩
      exact (congrArg (isUpdateSM _ _) hwrite).trans (isUpdateSM_skip hskip)
    obtain ⟨hvalue', hregs⟩ := updateRSProperty_takes vs.length false htakes
    obtain ⟨hfunc, hin⟩ := hregs d' j
    rw [if_pos ⟨rfl, hj⟩] at hin
    have hstep : s.sensorInfo d' k vs true =
        ((s.setValue d' k vs).setCached d' k vs).updateRSProperty d' k vs.length false true := by
      unfold MBExchange.sensorInfo
      exact if_neg (by simp [setValue, hforce, hwrite, hinit])
    change ((s.sensorInfo d' k vs true).regs d' j).mbval = (s.sensorInfo d' k vs true).value d' j ∧
      (s.sensorInfo d' k vs true).cached d' j = (s.sensorInfo d' k vs true).value d' j ∧
      isWriteFunction ((s.sensorInfo d' k vs true).regs d' j).mbfunc = true
    have hsame : ((s.setValue d' k vs).setCached d' k vs).cached d' j =
        ((s.setValue d' k vs).setCached d' k vs).value d' j := by
      simp [setCached, setValue, putWords_put, hj]
    rw [hstep, hvalue', hfunc]
    exact ⟨hin.1.trans (hin.2.trans hsame), hin.2.trans hsame, hword⟩
  · exact hothers d' j (mark_false.mpr hout)

theorem follows_updateSM (h : UpToDate (s, g)) (d k n : Nat) (ok : Bool) :
    UpToDate (watch (s, g) (.updateSM d k n ok)) := by
  have hothers := h.updateRSProperty d k n s.force_out ok
  intro d' j hg
  change (if InMode s d emSkipExchange ∧ s.force_out ∧ s.updates d k ∧ ok ∧
    isWriteFunction (s.regs d k).mbfunc then mark s g d k n true else g) d' j = true at hg
  split_ifs at hg with hmode
  · rcases mark_true hg with ⟨hj, -, hword⟩ | hout
    · obtain ⟨-, hforce, hupdates, hok, hwrite⟩ := hmode
      obtain ⟨hvalue, hregs⟩ := updateRSProperty_takes n s.force_out ⟨hupdates, hok, hwrite⟩
      obtain ⟨hfunc, hin⟩ := hregs d' j
      rw [if_pos hj, if_pos hforce] at hin
      obtain ⟨rfl, -⟩ := hj
      change ((s.updateRSProperty d' k n s.force_out ok).regs d' j).mbval =
          (s.updateRSProperty d' k n s.force_out ok).value d' j ∧
        (s.updateRSProperty d' k n s.force_out ok).cached d' j =
          (s.updateRSProperty d' k n s.force_out ok).value d' j ∧
        isWriteFunction ((s.updateRSProperty d' k n s.force_out ok).regs d' j).mbfunc = true
      rw [hvalue, hfunc]
      exact ⟨hin.1.trans hin.2, hin.2, hword⟩
    · exact hothers d' j hout.2
  · exact hothers d' j hg

theorem follows_preInitRead (h : UpToDate (s, g)) (reply : Reply) (vs : List ModbusData) (ok : Bool) :
    UpToDate (watch (s, g) (.preInitRead reply vs ok)) := by
  have hless : ∀ d j, (watch (s, g) (.preInitRead reply vs ok)).2 d j = true → g d j = true :=
    fun d j hg => by
      change (match s.reading with
        | some e => mark s g e.dev e.ri vs.length false
        | none => g) d j = true at hg
      cases hreading : s.reading with
      | none => rwa [hreading] at hg
      | some e =>
        rw [hreading] at hg
        exact (mark_false.mp hg).2
  have hsame : ∀ b pos, UpToDate ({ s with allInitOK := b, initPos := pos },
      (watch (s, g) (.preInitRead reply vs ok)).2) := fun b pos =>
    h.of_eq fun d j hg => ⟨hless d j hg, rfl, rfl, rfl, rfl⟩
  change UpToDate (s.preInitRead reply vs ok, (watch (s, g) (.preInitRead reply vs ok)).2)
  rcases preInitRead_cases s reply vs ok with ⟨-, hstep⟩ | ⟨i, e, -, -, -, hstep⟩ |
    ⟨i, e, pos, -, -, -, -, hstep⟩ | ⟨i, e, -, -, hreading, -, hstep⟩
  · rw [hstep]
    exact hsame _ _
  · rw [hstep]
    exact hsame _ _
  · rw [hstep]
    exact hsame _ _
  · have hghost : (watch (s, g) (.preInitRead reply vs ok)).2 =
        mark s g e.dev e.ri vs.length false := by
      change (match s.reading with
        | some e => mark s g e.dev e.ri vs.length false
        | none => g) = _
      rw [hreading]
    rw [hstep, hghost]
    -- the sensor gets the value, and the register counts as read
    have hread : UpToDate (MBExchange.setRegs { s.setValue e.dev e.ri vs with
        allInitOK := true
        initRegList := s.initRegList.set i { e with initOK := true } } e.dev
        (Function.update (s.regs e.dev) e.ri { s.regs e.dev e.ri with mb_initOK := true }),
        mark s g e.dev e.ri vs.length false) :=
      (follows_setValue h e.dev e.ri vs).of_eq fun d j hg =>
        ⟨hg, update_regs_same RegInfo.mbval s.regs (by rfl) d j, rfl, rfl,
          update_regs_same RegInfo.mbfunc s.regs (by rfl) d j⟩
    exact (hread.updateRSProperty e.dev e.ri e.rnum true true).of_eq
      fun d j hg => ⟨hg, rfl, rfl, rfl, rfl⟩

theorem exchange_regs {size it : Nat} {regs : Nat → RegInfo} {reply : Reply} {polled : Polled}
    (hpos : 0 < (regs it).q_count) (h : exchange size regs it reply = some polled) (k : Nat) :
    (polled.regs k).mbfunc = (regs k).mbfunc ∧
      (¬(isRead (regs it).mbfunc = true ∧ it ≤ k ∧ k < it + (regs it).q_count) →
        (polled.regs k).mbval = (regs k).mbval) := by
  by_cases hread : isRead (regs it).mbfunc = true
  · cases hvalues : values (regs it) reply with
    | error err =>
      rw [exchange_failed hread hvalues] at h
      obtain rfl := Option.some.inj h
      exact ⟨rfl, fun _ => rfl⟩
    | ok vs =>
      have hlength := (values_spec hvalues).1
      rw [exchange_read hread hvalues] at h
      split_ifs at h
      obtain rfl := Option.some.inj h
      unfold store
      dsimp only
      split_ifs with hk
      · exact ⟨rfl, fun hnot => absurd ⟨hread, hk.1, hk.2.trans_le (by omega)⟩ hnot⟩
      · exact ⟨rfl, fun _ => rfl⟩
  · obtain ⟨hnone, hsome⟩ := exchange_write hread hpos
    by_cases hfits : it + (regs it).q_count ≤ size
    · obtain ⟨polled', hpolled, -, hsame, -⟩ := hsome hfits
      obtain rfl := Option.some.inj (hpolled.symm.trans h)
      rw [hsame k]
      exact ⟨rfl, fun _ => rfl⟩
    · cases (hnone hfits).symm.trans h

theorem follows_poll (h : UpToDate (s, g)) {d pollfactor it size : Nat} {reply : Reply}
    (hallowed : Allowed s (.poll d pollfactor it size reply)) :
    UpToDate (watch (s, g) (.poll d pollfactor it size reply)) := by
  change UpToDate (s.poll d pollfactor it size reply, g)
  unfold MBExchange.poll
  split_ifs with hpolls
  · cases hexchange : exchange size (s.regs d) it reply with
    | none => exact h
    | some polled =>
      obtain ⟨-, -, hreads⟩ := hallowed hpolls
      have hpos := q_count_pos_of_asks ((Bool.and_eq_true _ _).mp hpolls).2
      have hregs : ∀ d' j, g d' j = true →
          ((s.setRegs d polled.regs).regs d' j).mbval = (s.regs d' j).mbval ∧
            ((s.setRegs d polled.regs).regs d' j).mbfunc = (s.regs d' j).mbfunc := fun d' j hg => by
        by_cases hd : d' = d
        · subst hd
          obtain ⟨hfunc, hval⟩ := exchange_regs hpos hexchange j
          simp only [setRegs, Function.update_self]
          refine ⟨hval fun hin => ?_, hfunc⟩
          have hwrite := (h d' j hg).2.2
          rw [hreads hin.1 j hin.2.1 hin.2.2] at hwrite
          cases hwrite
        · simp [setRegs, hd]
      exact h.of_eq fun d' j hg => ⟨hg, (hregs d' j hg).1, rfl, rfl, (hregs d' j hg).2⟩
  · exact h

/-! ## Whole runs -/

theorem obeys_poll (h : UpToDate (s, g)) {d pollfactor it size : Nat} {reply : Reply}
    (hallowed : Allowed s (.poll d pollfactor it size reply)) :
    Obeys (s, g) (.poll d pollfactor it size reply) := by
  refine ⟨fun d' q hsent hmode => ?_, fun d' q hsent hmode => ?_, fun d' hsaved => ?_,
    fun d' q hsent => ?_, ?_⟩
  · obtain ⟨rfl, hpolls, hask⟩ := sent_poll hsent
    obtain ⟨-, henabled, ⟨-, rfl⟩ | ⟨hwrite, -, rfl⟩⟩ := ask_eq_inr hask
    · rfl
    · rcases hmode with hmode | hmode
      · exact hwrite.symm.trans ((isPollEnabled_true henabled).2.1 hmode)
      · exact hwrite.symm.trans ((hallowed hpolls).1 hmode)
  · obtain ⟨rfl, hpolls, hask⟩ := sent_poll hsent
    obtain ⟨-, henabled, ⟨hread, rfl⟩ | ⟨-, -, rfl⟩⟩ := ask_eq_inr hask
    · rcases hmode with hmode | hmode
      · exact (isWriteFunction_of_isRead hread).symm.trans ((isPollEnabled_true henabled).2.2 hmode)
      · exact ((hallowed hpolls).2.1 hmode).symm.trans hread
    · rfl
  · cases hsaved
  · obtain ⟨rfl, -, hask⟩ := sent_poll hsent
    obtain ⟨hskip, henabled, -⟩ := ask_eq_inr hask
    exact not_or.mpr ⟨(isPollEnabled_true henabled).1, hskip⟩
  · intro d' pollfactor' it' size' reply' hstep mbfunc mbreg data hsent i v hv hg
    cases hstep
    obtain ⟨-, -, hask⟩ := sent_poll hsent
    obtain ⟨-, -, ⟨-, hquery⟩ | ⟨-, -, hquery⟩⟩ := ask_eq_inr hask
    · cases hquery
    · cases hquery
      rw [dataFrom_get hv]
      have hval := (h d (it + i) hg).1
      dsimp only at hval
      rw [← hval]

theorem obeys_preInitRead {reply : Reply} {vs : List ModbusData} {ok : Bool}
    (hallowed : Allowed s (.preInitRead reply vs ok)) : Obeys (s, g) (.preInitRead reply vs ok) := by
  have hsent : ∀ d q, s.sent (.preInitRead reply vs ok) = some (d, q) →
      ∃ e, s.reading = some e ∧ e.dev = d ∧ q.isWrite = false := fun d q h => by
    obtain ⟨e, he, heq⟩ := Option.map_eq_some_iff.mp h
    cases heq
    exact ⟨e, he, rfl, rfl⟩
  refine ⟨fun d q h _ => ?_, fun d q h hmode => ?_, fun d h => ?_, fun d q h => ?_,
    fun _ _ _ _ _ hstep => by cases hstep⟩
  · obtain ⟨e, -, -, hq⟩ := hsent d q h
    exact hq
  · obtain ⟨e, he, rfl, -⟩ := hsent d q h
    exact absurd hmode (hallowed e he).1
  · change (match s.reading with
      | some e => if accepted e.mbfunc e.rnum reply && ok then some e.dev else none
      | none => none) = some d at h
    cases hreading : s.reading with
    | none =>
      rw [hreading] at h
      cases h
    | some e =>
      rw [hreading] at h
      obtain ⟨hwriteOnly, -, hsave⟩ := hallowed e hreading
      dsimp only at h
      split_ifs at h with haccepted
      cases h
      refine ⟨hwriteOnly, fun hmode => ?_⟩
      rw [hsave hmode] at haccepted
      cases haccepted
  · obtain ⟨e, he, rfl, -⟩ := hsent d q h
    exact (hallowed e he).2.1

theorem obeys_updateSM (d k n : Nat) (ok : Bool) : Obeys (s, g) (.updateSM d k n ok) := by
  refine ⟨nofun, nofun, fun d' h => ?_, nofun, nofun⟩
  change (if s.updates d k && !isWriteFunction (s.regs d k).mbfunc && ok then some d else none) =
    some d' at h
  split_ifs at h with hsaves
  cases h
  simp only [Bool.and_eq_true, Bool.not_eq_true', updates] at hsaves
  obtain ⟨⟨⟨hmode, -⟩, hread⟩, -⟩ := hsaves
  rw [hread] at hmode
  exact isUpdateSM_read hmode

theorem obeys_step {step : ExchangeStep} (h : UpToDate (s, g)) (hallowed : Allowed s step) :
    Obeys (s, g) step ∧ UpToDate (watch (s, g) step) := by
  cases step with
  | poll d pollfactor it size reply => exact ⟨obeys_poll h hallowed, follows_poll h hallowed⟩
  | preInitRead reply vs ok => exact ⟨obeys_preInitRead hallowed, follows_preInitRead h reply vs ok⟩
  | updateSM d k n ok => exact ⟨obeys_updateSM d k n ok, follows_updateSM h d k n ok⟩
  | sensorInfo d k vs ok =>
    exact ⟨⟨nofun, nofun, nofun, nofun, nofun⟩, follows_sensorInfo h hallowed⟩
  | initValues =>
    refine ⟨⟨nofun, nofun, nofun, nofun, nofun⟩, fun d k hg => ?_⟩
    obtain ⟨hval, -, hwrite⟩ := h d k hg
    exact ⟨hval, rfl, hwrite⟩
  | setExchangeMode m => exact ⟨⟨nofun, nofun, nofun, nofun, nofun⟩, h⟩
  | setMode d m => exact ⟨⟨nofun, nofun, nofun, nofun, nofun⟩, h⟩
  | newChannel =>
    refine ⟨⟨nofun, nofun, nofun, nofun, nofun⟩, h.of_eq fun d j hg => ⟨hg, ?_⟩⟩
    simp only [MBExchange.step]
    split_ifs <;> exact ⟨rfl, rfl, rfl, rfl⟩
  | firstInitRegisters =>
    refine ⟨⟨nofun, nofun, nofun, nofun, nofun⟩, h.of_eq fun d j hg => ⟨hg, ?_⟩⟩
    simp only [MBExchange.step, MBExchange.firstInitRegisters]
    split_ifs <;> exact ⟨rfl, rfl, rfl, rfl⟩

/-- In every run of allowed steps the modes are obeyed. -/
theorem modes_obeyed {s : MBExchange} {steps : List ExchangeStep}
    (h : Guarded watch (fun w => Allowed w.1) (s, fun _ _ => false) steps) :
    Guarded watch Obeys (s, fun _ _ => false) steps :=
  h.of_invariant (fun w step hw hstep => obeys_step hw hstep) (I := UpToDate)
    fun _ _ hg => absurd hg (by simp)

/-- Devices with registers for one function, which have been initialised. -/
def oneFunction (mbfunc : ModbusByte) : MBExchange :=
  ⟨false, fun _ => false, emNone, fun _ => emNone,
    fun _ k => ⟨0, UInt16.ofNat k, mbfunc, [], k, 0, 1, true, true, true⟩, fun _ _ => 0,
    fun _ _ => 0, [], true, none⟩

/-- A sensor changes while a device is not exchanged, and then its value is sent. -/
theorem modes_obeyed_skip :
    Guarded watch Obeys (oneFunction 6, fun _ _ => false)
      [.setMode 0 emSkipExchange, .sensorInfo 0 0 [7] true, .setMode 0 emNone,
        .poll 0 1 0 1 (.ok [])] :=
  modes_obeyed ⟨trivial, fun _ _ _ => ⟨rfl, rfl⟩, trivial,
    fun _ => ⟨nofun, nofun, nofun⟩, trivial⟩

/-- A device that is only to be read is written. -/
theorem not_obeyed_readOnly :
    ¬Guarded watch Obeys (oneFunction 6, fun _ _ => false)
      [.setMode 0 emReadOnly, .poll 0 1 0 1 (.ok [])] := by
  rintro ⟨-, h, -⟩
  have hread := h.readOnly 0 (.write 6 0 [0]) (by decide) (.inr rfl)
  cases hread

end Uniset.ModbusMaster
