import ScrapeRelay.Proofs.Relay.Cycles
import ScrapeRelay.Proofs.Relay.Rosters
import ScrapeRelay.Proofs.Relay.Voices

/-!
The lock of a discovery. A cycle asks for it with its first turn and passes it on with its last one, to the
first in line. However many cycles of one discovery there are, only one of them is past the lock.
-/

namespace ScrapeRelay.Relay

structure Lock where
  holder : Option Nat
  line : List Nat

namespace Lock

def free : Lock := ⟨none, []⟩

def ask (me : Nat) (l : Lock) : Lock :=
  if l.holder.isNone then { l with holder := some me } else { l with line := l.line ++ [me] }

def pass (l : Lock) : Lock := ⟨l.line.head?, l.line.tail⟩

end Lock

def Scout.lock (sc : Scout) : Lock := ⟨sc.holder, sc.line⟩

def lock? (r : Relay) (n : Nat) : Option Lock := (r.scouts.get? n).map Scout.lock

def lock (r : Relay) (n : Nat) : Lock := (r.lock? n).getD .free

def Event.granted? (n : Nat) : Event → Option Nat
  | .began i w => if i = n then some w else none
  | _ => none

def granted (r : Relay) (n : Nat) : List Nat := r.told (Event.granted? n)

namespace Cycle

def isPast : Cycle → Bool
  | asking | queued => false
  | _ => true

def shift (me : Nat) : Cycle → Lock → Lock
  | asking, l => l.ask me
  | reporting .., l => l.pass
  | _, l => l

def grants (me : Nat) : Cycle → Lock → Option Nat
  | asking, l => if l.holder.isNone then some me else none
  | reporting .., l => l.line.head?
  | _, _ => none

end Cycle

structure Moved (r s : Relay) (i : Nat) (f : Lock → Lock) (g : Lock → Option Nat) : Prop where
  lock : s.lock? i = (r.lock? i).map f
  granted : s.granted i = r.granted i ++ ((r.lock? i).bind g).toList
  others : ∀ n, n ≠ i → s.lock? n = r.lock? n ∧ s.granted n = r.granted n

def Unmoved (r s : Relay) : Prop := ∀ n, s.lock? n = r.lock? n ∧ s.granted n = r.granted n

variable {r s : Relay} {me n i w : Nat} {t t' : Task} {c c' : Cycle} {sc sc' : Scout} {m : Move} {acts : List Act}
  {tolerant : Bool} {x : Source} {e : Event}

/-! The tasks of a discovery -/

theorem cycle?_blind : Blind Task.cycle? := ⟨fun _ _ _ => rfl, fun _ _ _ _ => rfl⟩

theorem hired?_cycle (h : (r.hired? m).bind Task.cycle? = some (n, c)) : c = .asking := by
  obtain ⟨t, hh, hc⟩ := Option.bind_eq_some_iff.mp h
  cases m with
  | call q =>
    obtain rfl := Option.some.inj hh
    cases q with
    | runOnce i =>
      obtain ⟨-, rfl⟩ := Prod.mk.inj (Option.some.inj hc)
      rfl
    | _ => cases hc
  | addDiscovery k spec =>
    obtain rfl := Option.some.inj hh
    split at hc <;> cases hc
  | addPool k | addProbeDrain k =>
    simp only [hired?, retirement?] at hh
    split at hh
    · obtain ⟨p, -, rfl⟩ := Option.map_eq_some_iff.mp hh
      cases hc
    · cases hh
  | _ => cases hh

theorem cycleOf_kept (hr : Reachable r) (hm : r.move m = some s) (hne : m ≠ .turn w) :
    s.cycleOf w = r.cycleOf w ∨ r.cycleOf w = none ∧ ∃ i, s.cycleOf w = some (i, .asking) := by
  rcases m.turn_or with ⟨me, rfl⟩ | htu
  · obtain ⟨t, t', s', -, -, -, hv⟩ := cycle?_blind.step hr.numbered hm
    refine .inl ((hv w).trans (if_neg ?_))
    rintro rfl
    exact hne rfl
  · obtain ⟨w₀, hw₀, hv⟩ := cycle?_blind.move hr hm htu
    by_cases hw : w = w₀
    · -- the one task that a move can hire is new
      have hnone : r.cycleOf w = none := view_fresh hr.numbered (hw ▸ hw₀)
      have hs : s.cycleOf w = (r.hired? m).bind Task.cycle? := (hv w).trans (if_pos hw)
      cases hh : (r.hired? m).bind Task.cycle? with
      | none => exact .inl (hs.trans (hh.trans hnone.symm))
      | some q => exact .inr ⟨hnone, q.1, by rw [hs, hh, ← hired?_cycle hh]⟩
    · exact .inl ((hv w).trans (if_neg hw))

theorem cycle_kept (hr : Reachable r) (hm : r.move m = some s) (hne : m ≠ .turn w)
    (hc : r.cycleOf w = some (n, c)) : s.cycleOf w = some (n, c) := by
  rcases cycleOf_kept hr hm hne with h | ⟨h, -⟩
  · exact h.trans hc
  · cases h.symm.trans hc

theorem cycle_before (hr : Reachable r) (hm : r.move m = some s) (hne : m ≠ .turn w)
    (hc : s.cycleOf w = some (n, c)) : r.cycleOf w = some (n, c) ∨ c = .asking := by
  rcases cycleOf_kept hr hm hne with h | ⟨-, i, h⟩
  · exact .inl (h.symm.trans hc)
  · exact .inr (Prod.mk.inj (Option.some.inj (hc.symm.trans h))).2

theorem Acted.cycle (h : Acted r me t s t') (hcourse : ∀ acts tolerant, t = .call acts tolerant → Course acts)
    (ht : t.cycle? = none) (ht' : t'.cycle? = some (n, c)) : c = .asking := by
  cases h with
  | works hp hw => rcases Numbered.worked_task hw with ⟨w', rfl⟩ | rfl <;> cases ht'
  | waits h => rcases h with rfl | ⟨_, _, rfl⟩ <;> cases ht'
  | begins => exact (Prod.mk.inj (Option.some.inj ht')).2.symm
  | cycles => cases ht
  | calls h =>
    rcases cycle?_cases ht' with ⟨rest, tolerant, rfl⟩ | ⟨due, rfl⟩
    · rcases h.follows (hcourse _ _ rfl) rfl with hreq | ⟨b, rest', rfl, hb⟩
      · cases hreq
      · cases hb
        cases ht
    · rcases h.tolerance with ⟨_, he⟩ | he <;> cases he
  | _ => cases ht'

theorem step_stray (hr : Reachable r) (hc : r.cycleOf me = some (n, c)) (hs : r.scouts.get? n = none)
    (hm : r.step me = some s) : s.cycleOf me = none := by
  obtain ⟨t, ht, hct⟩ := Option.bind_eq_some_iff.mp hc
  rcases cycle?_cases hct with ⟨rest, tolerant, rfl⟩ | ⟨due, rfl⟩
  · simp only [step, ht, Option.bind_some, turn, callStep, act, hs, Option.map_some] at hm
    obtain rfl := Option.some.inj hm
    refine (view_setTask r me me _).trans ((if_pos rfl).trans ?_)
    cases hr.course ht with
    | requests h => cases h _ List.mem_cons_self
    | cycles n c h =>
      cases rest with
      | nil => rfl
      | cons a rest =>
        have ha := h a List.mem_cons_self
        cases a <;> first | rfl | cases ha
  · simp only [step, ht, Option.bind_some, turn, hs, Option.map_some] at hm
    obtain rfl := Option.some.inj hm
    exact (view_setTask r me me _).trans (if_pos rfl)

theorem step_cycleOf (hr : Reachable r) (hm : r.step me = some s) (hc : s.cycleOf me = some (n, c)) :
    c = .asking ∨ ∃ c₀ sc s', r.cycleOf me = some (n, c₀) ∧ r.scouts.get? n = some sc ∧
      r.cycle me n sc c₀ = some (s', .going c) := by
  cases hc₀ : r.cycleOf me with
  | none =>
    obtain ⟨t, t', s', ht, ha, -, hv⟩ := cycle?_blind.step hr.numbered hm
    have hc' : t'.cycle? = some (n, c) := (if_pos rfl).symm.trans ((hv me).symm.trans hc)
    refine .inl (ha.cycle ?_ ((view_eq ht).symm.trans hc₀) hc')
    rintro acts tolerant rfl
    exact hr.course ht
  | some q =>
    obtain ⟨i, c₀⟩ := q
    cases hs : r.scouts.get? i with
    | none => cases (step_stray hr hc₀ hs hm).symm.trans hc
    | some sc =>
      obtain ⟨t, ht, hct⟩ := Option.bind_eq_some_iff.mp hc₀
      obtain ⟨s', p, t', hp, rfl, hgo, hover⟩ := step_cycle ht hct hs hm
      have ht' : t'.cycle? = some (n, c) := ((view_setTask s' me me t').trans (if_pos rfl)).symm.trans hc
      cases p with
      | going c' =>
        obtain ⟨rfl, rfl⟩ := Prod.mk.inj (Option.some.inj ((hgo c' rfl).symm.trans ht'))
        exact .inr ⟨c₀, sc, s', rfl, hs, hp⟩
      | «over» status => rcases hover status rfl with rfl | ⟨due, rfl⟩ <;> cases ht'

/-! Turns -/

theorem lock?_eq (h : s.scouts = r.scouts) (n : Nat) : s.lock? n = r.lock? n := by rw [lock?, lock?, h]

theorem lock?_setScout (r : Relay) (i : Nat) (sc : Scout) (n : Nat) :
    (r.setScout i sc).lock? n = if n = i then some sc.lock else r.lock? n := by
  simp only [lock?, setScout, Dict.get?_insert]
  split <;> rfl

theorem lock?_set (hs : r.scouts.get? i = some sc) (sc' : Scout) (hl : sc'.lock = sc.lock) (n : Nat) :
    (r.setScout i sc').lock? n = r.lock? n := by
  rw [lock?_setScout]
  split
  · rename_i hn
    rw [hn, lock?, hs, Option.map_some, hl]
  · rfl

theorem Unmoved.of (hs : s.scouts = r.scouts) (hj : s.journal = r.journal) : Unmoved r s :=
  fun n => ⟨lock?_eq hs n, by rw [Relay.granted, Relay.granted, told, told, hj]⟩

theorem Unmoved.tells (hs : ∀ n, s.lock? n = r.lock? n) (hj : Adds r s fun e => ∀ n, e.granted? n = none) :
    Unmoved r s := by
  obtain ⟨events, hj, he⟩ := hj
  exact fun n => ⟨hs n, told_same hj fun e hm => he e hm n⟩

theorem Unmoved.moved (h : Unmoved r s) (i : Nat) : Moved r s i id fun _ => none where
  lock := by rw [(h i).1, Option.map_id_apply]
  granted := by rw [(h i).2, Option.bind_fun_none, Option.toList_none, List.append_nil]
  others n _ := h n

theorem Moved.after {u : Relay} {f : Lock → Lock} {g : Lock → Option Nat} (hu : Unmoved r u)
    (h : Moved u s i f g) : Moved r s i f g where
  lock := (hu i).1 ▸ h.lock
  granted := (hu i).1 ▸ (hu i).2 ▸ h.granted
  others n hn := ⟨((h.others n hn).1).trans (hu n).1, ((h.others n hn).2).trans (hu n).2⟩

theorem Moved.set {f : Lock → Lock} {g : Lock → Option Nat} (hs : r.scouts.get? i = some sc)
    (hf : sc'.lock = f sc.lock) (hg : g sc.lock = none) : Moved r (r.setScout i sc') i f g where
  lock := by rw [lock?_setScout, if_pos rfl, lock?, hs, Option.map_some, Option.map_some, hf]
  granted := by
    rw [lock?, hs, Option.map_some, Option.bind_some, hg, Option.toList_none, List.append_nil]
    rfl
  others n hn := ⟨(lock?_setScout ..).trans (if_neg hn), rfl⟩

theorem Moved.begins {f : Lock → Lock} {g : Lock → Option Nat} (hs : r.scouts.get? i = some sc)
    (hf : sc'.lock = f sc.lock) (hg : g sc.lock = some w) :
    Moved r ((r.setScout i sc').record (.began i w)) i f g := by
  have hj : ((r.setScout i sc').record (.began i w)).journal = [.began i w] ++ r.journal := rfl
  refine ⟨?_, ?_, fun n hn => ⟨(lock?_setScout ..).trans (if_neg hn), told_same hj ?_⟩⟩
  · refine (lock?_setScout ..).trans ?_
    rw [if_pos rfl, lock?, hs, Option.map_some, Option.map_some, hf]
  · rw [Relay.granted, told_append _ hj, lock?, hs, Option.map_some, Option.bind_some, hg]
    simp [Event.granted?, Relay.granted]
  · simp [Event.granted?, Ne.symm hn]

theorem ask_moved (hs : r.scouts.get? i = some sc) (me : Nat) :
    Moved r (r.ask me i sc).1 i (Lock.ask me) (Cycle.asking.grants me) := by
  rw [ask]
  split
  · rename_i hh
    refine .begins hs ?_ ?_
    · simp [Lock.ask, Scout.lock, hh]
    · simp [Cycle.grants, Scout.lock, hh]
  · rename_i h hh
    refine .set hs ?_ ?_
    · simp [Lock.ask, Scout.lock, hh]
    · simp [Cycle.grants, Scout.lock, hh]

theorem passOn_moved (hs : r.scouts.get? i = some sc) : Moved r (r.passOn i sc) i Lock.pass (·.line.head?) := by
  rw [passOn]
  split
  · rename_i hl
    refine .set hs ?_ ?_
    · simp [Lock.pass, Scout.lock, hl]
    · simp [Scout.lock, hl]
  · rename_i next line hl
    refine .begins hs ?_ ?_
    · simp [Lock.pass, Scout.lock, hl]
    · simp [Scout.lock, hl]

theorem deliver_unmoved {d : Delivery} {p : Delivery.Progress} (h : r.deliver me d = some (s, p)) :
    Unmoved r s := by
  refine .tells (lock?_eq (deliver_undisturbed h).scouts) ?_
  cases deliver_forwarded h with
  | enters => exact .one rfl fun n => rfl
  | _ => exact .nothing rfl

theorem writeStatus_unmoved (r : Relay) (sc : Scout) (status : Discovery.Status) :
    Unmoved r (r.writeStatus sc status) := by
  refine .tells (lock?_eq (Aside.writeStatus_scouts ..)) ?_
  rw [writeStatus]
  split
  · refine .one (e := .discoveryStatus sc.key status) ?_ fun n => rfl
    unfold reportDiscovery
    dsimp only
    split <;> rfl
  · exact .nothing rfl

theorem cycle_moved {p : Cycle.Progress} (hs : r.scouts.get? i = some sc) (h : r.cycle me i sc c = some (s, p)) :
    Moved r s i (c.shift me) (c.grants me) := by
  cases c with
  | asking =>
    obtain ⟨rfl, -⟩ := Prod.mk.inj (Option.some.inj h)
    exact ask_moved hs me
  | queued | scanning | choosing | measuring =>
    cases cycle_advanced h
    exact Unmoved.moved (.of rfl rfl) i
  | delivering =>
    cases cycle_advanced h with
    | stays => exact Unmoved.moved (.of rfl rfl) i
    | delivers hd => exact (deliver_unmoved hd).moved i
  | reporting found tally =>
    obtain ⟨rfl, -⟩ := Prod.mk.inj (Option.some.inj h)
    have hw := Aside.writeStatus_scouts r sc (r.cycleStatus sc found tally)
    exact .after (writeStatus_unmoved r sc _) (passOn_moved (by rw [hw, hs]))

theorem stopSource_lock (r : Relay) (x : Source) (n : Nat) : (r.stopSource x).lock? n = r.lock? n := by
  simp only [stopSource]
  split
  · rfl
  · split
    · rename_i sc hs
      split
      · rfl
      · exact lock?_set hs { sc with stopped := true } rfl n
    · rfl

theorem joinSource_lock (r : Relay) (x : Source) (n : Nat) : (r.joinSource x).1.lock? n = r.lock? n := by
  simp only [joinSource]
  split
  · rfl
  · split
    · rename_i sc hs
      exact lock?_set hs { sc with loop := none, announcement := none } rfl n
    · rfl

theorem Tells.ungranted (h : Tells r me t e) (ht : t.scout? = none) (n : Nat) : e.granted? n = none := by
  cases h with
  | works hp he => cases e <;> first | rfl | cases he
  | begins w hs => cases ht.symm.trans hs
  | _ => rfl

theorem Called.unmoved (h : Called r me tolerant acts s t') (hc : (Task.call acts tolerant).cycle? = none) :
    Unmoved r s := by
  have hj := h.tells
  have same (hs : ∀ n, s.lock? n = r.lock? n) (ht : (Task.call acts tolerant).scout? = none) : Unmoved r s :=
    .tells hs (hj.mono fun e he => he.ungranted ht)
  cases h with
  | cycles | strays => cases hc
  | sends rest hd => exact deliver_unmoved hd
  | stops x rest => exact same (stopSource_lock r x) rfl
  | joins x rest => exact same (joinSource_lock r x) rfl
  | forgets k rest => exact same (lock?_eq (by split <;> rfl)) rfl
  | drops k rest => exact same (lock?_eq (by split <;> rfl)) rfl
  | closes d rest => exact same (lock?_eq (closeDrain_undisturbed r d).scouts) rfl
  | _ => exact same (lock?_eq rfl) rfl

theorem Acted.unmoved (h : Acted r me t s t') (hc : t.cycle? = none) : Unmoved r s := by
  have hj := h.tells
  have same (hs : s.scouts = r.scouts) (ht : t.scout? = none) : Unmoved r s :=
    .tells (lock?_eq hs) (hj.mono fun e he => he.ungranted ht)
  cases h with
  | cycles => cases hc
  | works hp hw => exact same (worked_undisturbed hw).scouts rfl
  | reports n aborted next k status =>
    refine same ?_ rfl
    unfold reportCollector
    dsimp only
    split <;> rfl
  | rests | begins | silent => exact .of rfl rfl
  | announces hn => exact writeStatus_unmoved r _ _
  | calls h => exact h.unmoved hc
  | _ => exact same rfl rfl

/-! Installs -/

theorem startSource_lock (r : Relay) (x : Source) (n : Nat) : (r.startSource x).lock? n = r.lock? n := by
  simp only [startSource]
  split
  · rfl
  · split
    · rfl
    · rename_i sc hs
      split
      · exact lock?_set hs { sc with loop := some r.fresh } rfl n
      · exact lock?_set hs { sc with announcement := some r.fresh } rfl n

theorem installSource_lock (r : Relay) (k : Key) (x : Source) (n : Nat) :
    (r.installSource k x).lock? n = r.lock? n := by
  have hr : (r.retireSource k).lock? n = r.lock? n := by
    rw [retireSource]
    split
    · exact stopSource_lock (r.setRegistry (r.withoutSource k)) _ n
    · rfl
  rw [installSource_eq]
  exact (startSource_lock (r.retireSource k) x n).trans hr

theorem install_lock (hr : Reachable r) (hm : r.move m = some s) (htu : ∀ me, m ≠ .turn me) (n : Nat) :
    s.lock n = r.lock n ∧ s.granted n = r.granted n := by
  constructor
  · cases m with
    | turn me => exact absurd rfl (htu me)
    | addDiscovery k spec connected reports =>
      obtain rfl := Option.some.inj hm
      have hmade : (r.putDiscovery k spec connected reports).lock? n =
          if n = r.fresh then some .free else r.lock? n :=
        (installSource_lock (r.addScout k spec connected reports).1 k _ n).trans (lock?_setScout ..)
      rw [lock, hmade]
      split
      · -- its lock is free, as it was when the discovery was not there
        rename_i hn
        rw [hn, lock, lock?, hr.numbered.scouts r.fresh (Nat.le_refl _)]
        rfl
      · rfl
    | addProbeSource k collectors =>
      obtain rfl := Option.some.inj hm
      exact congrArg (·.getD .free) (installSource_lock r.addProbe.1 k _ n)
    | addPool k spec size accepts every =>
      obtain rfl := Option.some.inj hm
      have hd := installDrain_undisturbed ((r.addOutlet accepts).1.addPool k spec r.fresh every).1 k
        (.pool (r.fresh + 1)) size
      exact congrArg (·.getD .free) (lock?_eq hd.scouts n)
    | addProbeDrain k size keeps =>
      obtain rfl := Option.some.inj hm
      exact congrArg (·.getD .free) (lock?_eq (installDrain_undisturbed r.addProbe.1 k _ size).scouts n)
    | call | surround | elapse =>
      obtain rfl := Option.some.inj hm
      rfl
  · obtain ⟨events, hj, he⟩ := move_tells hr hm htu
    exact told_same hj fun e hin => by cases he e hin <;> rfl

/-! All moves -/

theorem lock_eq (hs : r.scouts.get? n = some sc) : r.lock n = sc.lock := by
  rw [lock, lock?, hs]
  rfl

theorem cycle_past (h : r.cycle me n sc c = some (s, .going c')) (ha : c ≠ .asking) :
    c'.isPast = true ∧ (c = .queued → sc.holder = some me) ∧
    ∀ found tally, c ≠ .reporting found tally := by
  refine ⟨?_, ?_, ?_⟩
  · cases c with
    | asking => exact absurd rfl ha
    | queued =>
      simp only [cycle] at h
      split at h
      · cases h
        rfl
      · cases h
    | scanning =>
      cases h
      split <;> rfl
    | choosing batch rest tally =>
      cases rest with
      | nil =>
        cases h
        rfl
      | cons k rest =>
        cases h
        rw [choose_eq]
        split <;> rfl
    | delivering batch d rest tally =>
      obtain ⟨⟨s', q⟩, -, he⟩ := Option.map_eq_some_iff.mp h
      cases q <;> cases he <;> rfl
    | measuring =>
      cases h
      rfl
    | reporting => cases h
  · rintro rfl
    simp only [cycle] at h
    split at h
    · assumption
    · cases h
  · rintro found tally rfl
    cases h

inductive Shift (r : Relay) (n : Nat) (s : Relay) : Move → Prop
  | elsewhere {m : Move} (hl : s.lock n = r.lock n) (hg : s.granted n = r.granted n)
      (hbegins : ∀ w c, m = .turn w → s.cycleOf w = some (n, c) → c = .asking)
      (hfree : ∀ w c, m = .turn w → r.cycleOf w = some (n, c) → r.lock n = .free) : Shift r n s m
  | acquires {me : Nat} {sc : Scout} (hs : r.scouts.get? n = some sc) (hc : r.cycleOf me = some (n, .asking))
      (hc' : s.cycleOf me = some (n, .scanning)) (hh : (r.lock n).holder = none)
      (hl : s.lock n = ⟨some me, (r.lock n).line⟩) (hg : s.granted n = r.granted n ++ [me]) :
      Shift r n s (.turn me)
  | queues {me w : Nat} (hc : r.cycleOf me = some (n, .asking)) (hc' : s.cycleOf me = some (n, .queued))
      (hh : (r.lock n).holder = some w) (hl : s.lock n = ⟨some w, (r.lock n).line ++ [me]⟩)
      (hg : s.granted n = r.granted n) : Shift r n s (.turn me)
  | goesOn {me : Nat} {c c' : Cycle} (hc : r.cycleOf me = some (n, c)) (hc' : s.cycleOf me = some (n, c'))
      (ha : c ≠ .asking) (hq : c = .queued → (r.lock n).holder = some me) (hp : c'.isPast = true)
      (hl : s.lock n = r.lock n) (hg : s.granted n = r.granted n) : Shift r n s (.turn me)
  | passes {me found : Nat} {tally : Tally} {sc : Scout} (hs : r.scouts.get? n = some sc)
      (hc : r.cycleOf me = some (n, .reporting found tally)) (hc' : s.cycleOf me = none)
      (hl : s.lock n = (r.lock n).pass) (hg : s.granted n = r.granted n ++ (r.lock n).line.head?.toList) :
      Shift r n s (.turn me)

theorem step_shift_own (hc : r.cycleOf me = some (n, c)) (hs : r.scouts.get? n = some sc)
    (hm : r.step me = some s) : Shift r n s (.turn me) := by
  obtain ⟨t, ht, hct⟩ := Option.bind_eq_some_iff.mp hc
  obtain ⟨s', p, t', hp, rfl, hgo, hover⟩ := step_cycle ht hct hs hm
  have hcs : (s'.setTask me t').cycleOf me = t'.cycle? := (view_setTask s' me me t').trans (if_pos rfl)
  have hlock : r.lock? n = some sc.lock := by rw [lock?, hs, Option.map_some]
  have hmoved := cycle_moved hs hp
  have hl : (s'.setTask me t').lock n = c.shift me (r.lock n) := by
    rw [lock_eq hs]
    exact congrArg (·.getD .free) (hmoved.lock.trans (by rw [hlock, Option.map_some]))
  have hg : (s'.setTask me t').granted n = r.granted n ++ (c.grants me (r.lock n)).toList := by
    rw [lock_eq hs]
    exact hmoved.granted.trans (by rw [hlock, Option.bind_some])
  cases p with
  | going c' =>
    have hc' := hcs.trans (hgo c' rfl)
    by_cases ha : c = .asking
    · subst ha
      obtain ⟨-, he⟩ := Prod.mk.inj (Option.some.inj hp)
      obtain rfl := Cycle.Progress.going.inj he
      simp only [Cycle.shift, Lock.ask, Cycle.grants] at hl hg
      cases hh : (r.lock n).holder with
      | none =>
        have hholder : sc.holder = none := by rw [← hh, lock_eq hs]; rfl
        refine .acquires hs hc (by simpa [ask, hholder] using hc') hh (by simpa [hh] using hl)
          (by simpa [hh] using hg)
      | some w =>
        have hholder : sc.holder = some w := by rw [← hh, lock_eq hs]; rfl
        refine .queues hc (by simpa [ask, hholder] using hc') hh (by simpa [hh] using hl) (by simpa [hh] using hg)
    · obtain ⟨hpast, hq, hr⟩ := cycle_past hp ha
      have hsame : c.shift me (r.lock n) = r.lock n ∧ c.grants me (r.lock n) = none := by
        cases c with
        | asking => exact absurd rfl ha
        | reporting found tally => exact absurd rfl (hr found tally)
        | _ => exact ⟨rfl, rfl⟩
      rw [hsame.2, Option.toList_none, List.append_nil] at hg
      refine .goesOn hc hc' ha (fun h => ?_) hpast (hl.trans hsame.1) hg
      rw [lock_eq hs]
      exact hq h
  | «over» status =>
    obtain ⟨found, tally, rfl⟩ := cycle_over hp
    refine .passes hs hc (hcs.trans ?_) hl hg
    rcases hover status rfl with rfl | ⟨due, rfl⟩ <;> rfl

theorem step_unmoved (hr : Reachable r) (hm : r.step me = some s) (hc : ∀ c, r.cycleOf me ≠ some (n, c)) :
    s.lock? n = r.lock? n ∧ s.granted n = r.granted n := by
  cases hcy : r.cycleOf me with
  | none =>
    obtain ⟨t, t', s', ht, ha, -, rfl⟩ := step_acted hr.numbered hm
    exact ha.unmoved ((view_eq ht).symm.trans hcy) n
  | some q =>
    obtain ⟨i, c⟩ := q
    have hi : n ≠ i := by
      rintro rfl
      exact hc c hcy
    obtain ⟨t, ht, hct⟩ := Option.bind_eq_some_iff.mp hcy
    cases hs : r.scouts.get? i with
    | none =>
      obtain ⟨t', rfl⟩ := step_unknown ht hct hs hm
      exact ⟨rfl, rfl⟩
    | some sc =>
      obtain ⟨s', p, t', hp, rfl, -⟩ := step_cycle ht hct hs hm
      exact (cycle_moved hs hp).others n hi

theorem move_shift (hr : Reachable r) (hm : r.move m = some s) (n : Nat) : Shift r n s m := by
  rcases m.turn_or with ⟨me, rfl⟩ | htu
  · by_cases hc : ∃ c, r.cycleOf me = some (n, c)
    · obtain ⟨c, hc⟩ := hc
      cases hs : r.scouts.get? n with
      | some sc => exact step_shift_own hc hs hm
      | none =>
        have hfree : r.lock n = .free := by rw [lock, lock?, hs]; rfl
        obtain ⟨t, ht, hct⟩ := Option.bind_eq_some_iff.mp hc
        obtain ⟨t', rfl⟩ := step_unknown ht hct hs hm
        refine .elsewhere rfl rfl ?_ fun _ _ _ _ => hfree
        rintro w c' ⟨⟩ hc'
        cases (step_stray hr hc hs hm).symm.trans hc'
    · obtain ⟨hl, hg⟩ := step_unmoved hr hm fun c h => hc ⟨c, h⟩
      refine .elsewhere (congrArg (·.getD .free) hl) hg ?_ ?_
      · rintro w c ⟨⟩ hw
        rcases step_cycleOf hr hm hw with h | ⟨c₀, _, _, h, -⟩
        · exact h
        · exact absurd ⟨c₀, h⟩ hc
      · rintro w c ⟨⟩ hw
        exact absurd ⟨c, hw⟩ hc
  · obtain ⟨hl, hg⟩ := install_lock hr hm htu n
    exact .elsewhere hl hg (fun w _ he => absurd he (htu w)) fun w _ he => absurd he (htu w)

/-! The lock is kept -/

/-- The holder and those in line are in a cycle of the discovery, and only the holder is past the lock. -/
structure Guarded (r : Relay) (n : Nat) : Prop where
  held : ∀ w, (r.lock n).holder = some w → ∃ c, r.cycleOf w = some (n, c) ∧ c ≠ .asking
  past : ∀ w c, r.cycleOf w = some (n, c) → c.isPast = true → (r.lock n).holder = some w
  lined : ∀ w ∈ (r.lock n).line, r.cycleOf w = some (n, .queued)
  once : ((r.lock n).holder.toList ++ (r.lock n).line).Nodup

theorem Guarded.not_lined (h : Guarded r n) (hc : r.cycleOf w = some (n, c)) (hq : c ≠ .queued) :
    w ∉ (r.lock n).line := by
  intro hw
  exact hq (Prod.mk.inj (Option.some.inj (hc.symm.trans (h.lined w hw)))).2

theorem Guarded.holder_not_lined (h : Guarded r n) (hw : (r.lock n).holder = some w) : w ∉ (r.lock n).line := by
  have ho := h.once
  rw [hw] at ho
  exact (List.nodup_cons.mp ho).1

theorem Guarded.lined_kept (h : Guarded r n) (hr : Reachable r) (hm : r.move m = some s)
    (hw : w ∈ (r.lock n).line) (hne : m ≠ .turn w) : s.cycleOf w = some (n, .queued) :=
  cycle_kept hr hm hne (h.lined w hw)

theorem Guarded.past_before (h : Guarded r n) (hr : Reachable r) (hm : r.move m = some s) (hne : m ≠ .turn w)
    (hc : s.cycleOf w = some (n, c)) (hp : c.isPast = true) : (r.lock n).holder = some w := by
  rcases cycle_before hr hm hne hc with hc | rfl
  · exact h.past w c hc hp
  · cases hp

theorem turn_ne (h : w ≠ me) : Move.turn me ≠ .turn w := fun he => h (Move.turn.inj he).symm

theorem Guarded.elsewhere (h : Guarded r n) (hr : Reachable r) (hm : r.move m = some s) (hl : s.lock n = r.lock n)
    (hbegins : ∀ w c, m = .turn w → s.cycleOf w = some (n, c) → c = .asking)
    (hfree : ∀ w c, m = .turn w → r.cycleOf w = some (n, c) → r.lock n = .free) : Guarded s n := by
  -- whoever holds the lock or stands in line does not take the turn
  have others {w : Nat} {c : Cycle} (hc : r.cycleOf w = some (n, c)) (hne : r.lock n ≠ .free) : m ≠ .turn w :=
    fun he => hne (hfree w c he hc)
  refine ⟨fun w hw => ?_, fun w c hc hp => ?_, fun w hw => ?_, hl ▸ h.once⟩
  · rw [hl] at hw
    obtain ⟨c, hc, ha⟩ := h.held w hw
    refine ⟨c, cycle_kept hr hm (others hc fun hf => ?_) hc, ha⟩
    simp [hf, Lock.free] at hw
  · rw [hl]
    refine h.past_before hr hm (fun he => ?_) hc hp
    obtain rfl := hbegins w c he hc
    cases hp
  · rw [hl] at hw
    refine h.lined_kept hr hm hw (others (h.lined w hw) fun hf => ?_)
    simp [hf, Lock.free] at hw

theorem Guarded.acquires (h : Guarded r n) (hr : Reachable r) (hm : r.move (.turn me) = some s)
    (hc : r.cycleOf me = some (n, .asking)) (hc' : s.cycleOf me = some (n, .scanning))
    (hh : (r.lock n).holder = none)
    (hl : s.lock n = ⟨some me, (r.lock n).line⟩) : Guarded s n := by
  have hout := h.not_lined hc (by simp)
  refine ⟨fun w hw => ?_, fun w c hcw hp => ?_, fun w hw => ?_, ?_⟩
  · rw [hl] at hw
    obtain rfl := Option.some.inj hw
    exact ⟨_, hc', by simp⟩
  · rw [hl]
    by_cases hw : w = me
    · rw [hw]
    · cases hh.symm.trans (h.past_before hr hm (turn_ne hw) hcw hp)
  · rw [hl] at hw
    exact h.lined_kept hr hm hw (turn_ne (ne_of_mem_of_not_mem hw hout))
  · rw [hl]
    exact List.nodup_cons.mpr ⟨hout, (List.nodup_append.mp h.once).2.1⟩

theorem Guarded.queues (h : Guarded r n) (hr : Reachable r) (hm : r.move (.turn me) = some s)
    (hc : r.cycleOf me = some (n, .asking)) (hc' : s.cycleOf me = some (n, .queued))
    (hh : (r.lock n).holder = some i)
    (hl : s.lock n = ⟨some i, (r.lock n).line ++ [me]⟩) : Guarded s n := by
  have hout := h.not_lined hc (by simp)
  obtain ⟨c, hci, ha⟩ := h.held i hh
  have hi : i ≠ me := by
    rintro rfl
    exact ha (Prod.mk.inj (Option.some.inj (hci.symm.trans hc))).2
  refine ⟨fun w hw => ?_, fun w c hcw hp => ?_, fun w hw => ?_, ?_⟩
  · rw [hl] at hw
    obtain rfl := Option.some.inj hw
    exact ⟨c, cycle_kept hr hm (turn_ne hi) hci, ha⟩
  · rw [hl, ← hh]
    by_cases hw : w = me
    · subst hw
      obtain ⟨-, rfl⟩ := Prod.mk.inj (Option.some.inj (hc'.symm.trans hcw))
      cases hp
    · exact h.past_before hr hm (turn_ne hw) hcw hp
  · rw [hl] at hw
    rcases List.mem_append.mp hw with hw | hw
    · exact h.lined_kept hr hm hw (turn_ne (ne_of_mem_of_not_mem hw hout))
    · rw [List.mem_singleton.mp hw]
      exact hc'
  · have ho := h.once
    rw [hh] at ho
    rw [hl, ← List.append_assoc]
    refine List.nodup_append.mpr ⟨ho, List.nodup_singleton me, fun a ha b hb => ?_⟩
    rw [List.mem_singleton.mp hb]
    rintro rfl
    rcases List.mem_cons.mp ha with ha | ha
    · exact hi ha.symm
    · exact hout ha

theorem Guarded.holds (h : Guarded r n) (hc : r.cycleOf me = some (n, c)) (ha : c ≠ .asking)
    (hq : c = .queued → (r.lock n).holder = some me) : (r.lock n).holder = some me := by
  cases c with
  | asking => exact absurd rfl ha
  | queued => exact hq rfl
  | _ => exact h.past me _ hc rfl

theorem Guarded.goesOn (h : Guarded r n) (hr : Reachable r) (hm : r.move (.turn me) = some s)
    (hme : (r.lock n).holder = some me) (hc' : s.cycleOf me = some (n, c')) (hp : c'.isPast = true)
    (hl : s.lock n = r.lock n) : Guarded s n := by
  have hout := h.holder_not_lined hme
  refine ⟨fun w hw => ?_, fun w c hcw hp => ?_, fun w hw => ?_, hl ▸ h.once⟩
  · rw [hl, hme] at hw
    obtain rfl := Option.some.inj hw
    refine ⟨c', hc', ?_⟩
    rintro rfl
    cases hp
  · rw [hl]
    by_cases hw : w = me
    · rw [hw, hme]
    · exact h.past_before hr hm (turn_ne hw) hcw hp
  · rw [hl] at hw
    exact h.lined_kept hr hm hw (turn_ne (ne_of_mem_of_not_mem hw hout))

theorem Guarded.passes (h : Guarded r n) (hr : Reachable r) (hm : r.move (.turn me) = some s)
    (hme : (r.lock n).holder = some me) (hc' : s.cycleOf me = none)
    (hl : s.lock n = (r.lock n).pass) : Guarded s n := by
  have hout := h.holder_not_lined hme
  refine ⟨fun w hw => ?_, fun w c hcw hp => ?_, fun w hw => ?_, ?_⟩
  · rw [hl] at hw
    have hin : w ∈ (r.lock n).line := List.mem_of_mem_head? hw
    exact ⟨_, h.lined_kept hr hm hin (turn_ne (ne_of_mem_of_not_mem hin hout)), by simp⟩
  · -- nobody but the old holder was past the lock
    have hw : w ≠ me := by
      rintro rfl
      cases hc'.symm.trans hcw
    exact absurd (Option.some.inj (hme.symm.trans (h.past_before hr hm (turn_ne hw) hcw hp))) (Ne.symm hw)
  · rw [hl] at hw
    have hin : w ∈ (r.lock n).line := List.mem_of_mem_tail hw
    exact h.lined_kept hr hm hin (turn_ne (ne_of_mem_of_not_mem hin hout))
  · have ho := (List.nodup_append.mp h.once).2.1
    rw [hl, Lock.pass]
    cases hline : (r.lock n).line with
    | nil => exact List.nodup_nil
    | cons next line =>
      rw [hline] at ho
      exact ho

theorem Guarded.shift (h : Guarded r n) (hr : Reachable r) (hm : r.move m = some s) (hsh : Shift r n s m) :
    Guarded s n := by
  cases hsh with
  | elsewhere hl _ hbegins hfree => exact h.elsewhere hr hm hl hbegins hfree
  | acquires _ hc hc' hh hl => exact h.acquires hr hm hc hc' hh hl
  | queues hc hc' hh hl => exact h.queues hr hm hc hc' hh hl
  | goesOn hc hc' ha hq hp hl => exact h.goesOn hr hm (h.holds hc ha hq) hc' hp hl
  | passes _ hc hc' hl => exact h.passes hr hm (h.past _ _ hc rfl) hc' hl

theorem Reachable.guarded (hr : Reachable r) (n : Nat) : Guarded r n := by
  refine hr.holds (P := (Guarded · n)) ?_ fun r m s hr h hm => h.shift hr hm (move_shift hr hm n)
  intro inventory network every
  refine ⟨fun w hw => ?_, fun w c hc => ?_, fun w hw => ?_, List.nodup_nil⟩
  · cases hw
  · cases hc
  · cases hw

end ScrapeRelay.Relay
