import ScrapeRelay.Proofs.Relay.Deletions
import ScrapeRelay.Proofs.Relay.Reporters

/-!
What reporters put on the board. The board forgets a collector when its pool was closed and all reporters under
its key were aborted. One that was in the middle of its report then still writes; if there is none, the
collector stays away.
-/

namespace ScrapeRelay.Relay

variable {r s u : Relay} {me n next : Nat} {t t' : Task} {k : Key} {acts rest : List Act}
  {tolerant : Bool} {m : Move}
  {stage : Reporter} {p : Pool}

theorem writeStatus_collectors (r : Relay) (sc : Scout) (status : Discovery.Status) :
    (r.writeStatus sc status).board.collectors = r.board.collectors := by
  rw [writeStatus]
  split
  · unfold reportDiscovery
    dsimp only
    split <;> rfl
  · rfl

theorem cycle_collectors {sc : Scout} {x : Cycle} {p : Cycle.Progress} (h : r.cycle me n sc x = some (s, p)) :
    s.board.collectors = r.board.collectors := by
  cases cycle_advanced h with
  | stays => rfl
  | asks =>
    rw [ask]
    split <;> rfl
  | delivers hd => rw [(deliver_undisturbed hd).board]
  | reports found tally =>
    refine Eq.trans ?_ (writeStatus_collectors r sc (r.cycleStatus sc found tally))
    rw [passOn]
    split <;> rfl

theorem Called.collectors (h : Called r me tolerant acts s t') (hk : r.board.collectors.get? k = none) :
    s.board.collectors.get? k = none := by
  cases h with
  | sends rest hd => rwa [(deliver_undisturbed hd).board]
  | cycles rest hn hc => rwa [cycle_collectors hc]
  | stops x rest => rwa [(stopSource_unconcerned r x).board]
  | joins x rest =>
    obtain ⟨scouts, hj⟩ := joinSource_eq r x
    rw [hj]
    exact hk
  | forgets k' rest => split <;> exact hk
  | closes d rest => rwa [(closeDrain_undisturbed r d).board]
  | drops k' rest =>
    split
    · change (r.board.collectors.erase k').get? k = none
      rw [Dict.get?_erase]
      split
      · rfl
      · exact hk
    · exact hk
  | _ => exact hk

theorem Acted.collectors (h : Acted r me t s t') (ht : t.reporter? = none)
    (hk : r.board.collectors.get? k = none) : s.board.collectors.get? k = none := by
  cases h with
  | works hp hw => rwa [(worked_undisturbed hw).board]
  | waits | measures | reports => cases ht
  | cycles due hn hc => rwa [cycle_collectors hc]
  | announces hn => rwa [writeStatus_collectors]
  | calls h => exact h.collectors hk
  | _ => exact hk

theorem report_collectors {aborted : Bool} (h : r.report n p aborted next stage = some (s, t'))
    (hk : r.board.collectors.get? k = none) :
    s.board.collectors.get? k = none ∨ p.key = k ∧ ∃ status, stage = .writing status := by
  cases stage with
  | sleeping =>
    simp only [report] at h
    split at h
    · obtain ⟨rfl, -⟩ := Prod.mk.inj (Option.some.inj h)
      exact .inl hk
    · split at h
      · obtain ⟨rfl, -⟩ := Prod.mk.inj (Option.some.inj h)
        exact .inl hk
      · simp at h
  | counting | measuring | summing =>
    obtain ⟨rfl, -⟩ := Prod.mk.inj (Option.some.inj h)
    exact .inl hk
  | writing status =>
    obtain ⟨rfl, -⟩ := Prod.mk.inj (Option.some.inj h)
    by_cases hkey : p.key = k
    · exact .inr ⟨hkey, status, rfl⟩
    · left
      unfold reportCollector
      dsimp only
      split
      · exact hk
      · change (r.board.collectors.insert p.key status).get? k = none
        rw [Dict.get?_insert, if_neg (Ne.symm hkey)]
        exact hk

theorem step_collectors (hm : r.step me = some s) (hk : r.board.collectors.get? k = none) :
    s.board.collectors.get? k = none ∨
    ∃ n aborted status, r.view Task.reporter? me = some (n, aborted, .writing status) ∧
      (r.watch? n).map (·.1) = some k := by
  obtain ⟨t, ht, hs⟩ := Option.bind_eq_some_iff.mp hm
  obtain ⟨⟨s', t'⟩, htu, rfl⟩ := Option.map_eq_some_iff.mp hs
  cases hrep : t.reporter? with
  | none => exact .inl ((turn_acted htu).collectors hrep hk)
  | some x =>
    cases t with
    | reporter n aborted next stage =>
      simp only [turn] at htu
      cases hp : r.pools.get? n with
      | none =>
        simp only [hp] at htu
        obtain ⟨rfl, -⟩ := Prod.mk.inj (Option.some.inj htu)
        exact .inl hk
      | some p =>
        simp only [hp] at htu
        rcases report_collectors htu hk with hk | ⟨hkey, status, rfl⟩
        · exact .inl hk
        · refine .inr ⟨n, aborted, status, view_eq ht, ?_⟩
          simp [watch?, hp, hkey]
    | _ => cases hrep

/-- Nothing is on the board about the collector under a key, and whoever may report about it is to end. -/
structure Hushed (r : Relay) (k : Key) : Prop where
  free : r.board.collectors.get? k = none
  ending : ∀ w n aborted stage, r.view Task.reporter? w = some (n, aborted, stage) →
    (r.watch? n).map (·.1) = some k → aborted = true ∧ stage = .sleeping

theorem report_ends (ht : r.tasks.get? me = some (.reporter n true next .sleeping)) (hm : r.step me = some s) :
    s.view Task.reporter? me = none := by
  obtain ⟨t, ht', hs⟩ := Option.bind_eq_some_iff.mp hm
  obtain rfl := Option.some.inj (ht.symm.trans ht')
  obtain ⟨⟨s', t'⟩, htu, rfl⟩ := Option.map_eq_some_iff.mp hs
  rw [view_setTask, if_pos rfl]
  simp only [turn] at htu
  split at htu <;> obtain ⟨-, rfl⟩ := Prod.mk.inj (Option.some.inj htu) <;> rfl

theorem Hushed.step (h : Hushed r k) (hn : Numbered r) (hm : r.step me = some s) : Hushed s k := by
  refine ⟨?_, fun w n aborted stage hw hk => ?_⟩
  · rcases step_collectors hm h.free with hk | ⟨n, aborted, status, hw, hk⟩
    · exact hk
    · cases (h.ending me n aborted _ hw hk).2
  · obtain ⟨before, stage', hv, hb, hstage, -⟩ := step_reporter hn hm hw
    rw [step_key hn hm] at hk
    obtain ⟨rfl, rfl⟩ := h.ending w n before stage' hv hk
    by_cases hme : w = me
    · subst hme
      obtain ⟨next, ht⟩ := view_reporter.mp hv
      simp [report_ends ht hm] at hw
    · exact ⟨hb rfl, (hstage hme).symm⟩

theorem Hushed.install (h : Hushed r k) (hr : Reachable r) (hm : r.move m = some s) (htu : ∀ me, m ≠ .turn me)
    (hq : m.drainKey? ≠ some k) : Hushed s k := by
  have hboard : s.board.collectors.get? k = none := (install_board hm htu).1 ▸ h.free
  refine ⟨hboard, fun w n aborted stage hw hk => ?_⟩
  rcases install_reporter hr hm htu hw with ⟨k', hk', -, hwatch⟩ | ⟨before, hv, hb, -⟩
  · rw [hwatch] at hk
    exact absurd (hk'.trans hk) hq
  · obtain ⟨x, hx⟩ := Option.isSome_iff_exists.mp (Option.isSome_map ▸ hr.pooled w n before stage hv)
    rw [install_key hr hm htu (watch?_lt hr.numbered hx)] at hk
    obtain ⟨rfl, hs⟩ := h.ending w n before stage hv hk
    exact ⟨hb rfl, hs⟩

theorem Hushed.move (h : Hushed r k) (hr : Reachable r) (hm : r.move m = some s) (hq : m.drainKey? ≠ some k) :
    Hushed s k := by
  rcases m.turn_or with ⟨me, rfl⟩ | htu
  · exact h.step hr.numbered hm
  · exact h.install hr hm htu hq

def Unreported (r : Relay) (k : Key) : Prop :=
  ∀ w n aborted stage, r.view Task.reporter? w = some (n, aborted, stage) →
  (r.watch? n).map (·.1) = some k →
    stage = .sleeping

theorem Hushed.forgets (ha : Alone r me) (he : r.reportEvery.isSome = true) (hk : r.registry.drains.get? k = none)
    (ht : r.tasks.get? me = some (.call (.forgetCollector k :: rest) tolerant)) (hu : Unreported r k)
    (hm : r.step me = some s) : Hushed s k := by
  have hn := ha.reachable.numbered
  refine ⟨?_, fun w n aborted stage hw hkey => ?_⟩
  · obtain ⟨s', t', hc, rfl⟩ := step_called ht hm
    cases hc with
    | drops k rest =>
      rw [if_pos he]
      exact (Dict.get?_erase ..).trans (if_pos rfl)
  · obtain ⟨before, stage', hv, hb, hstage, -⟩ := step_reporter hn hm hw
    rw [step_key hn hm] at hkey
    have hme : w ≠ me := by
      rintro rfl
      simp [view_eq ht, Task.reporter?] at hv
    refine ⟨?_, (hstage hme).symm.trans (hu w n before stage' hv hkey)⟩
    cases before with
    | true => exact hb rfl
    | false =>
      -- only this call could be about to close a pool that is not registered any more, and it is past that
      obtain ⟨k', hk', hreg⟩ := ha.reachable.watched w n stage' hv
      obtain rfl : k' = k := by simpa [hk'] using hkey
      rcases hreg with hreg | ⟨v, hclose⟩
      · simp [hk] at hreg
      · obtain ⟨rest', tolerant', htv⟩ := view_head.mp hclose
        obtain rfl := ha.sole v _ _ htv rfl
        simp [ht] at htv

/-- A pool that was removed stays off the board from when that forgets it, until there is a drain under the key
again, if no reporter was in the middle of its report then. -/
theorem collector_stays_forgotten {ms : List Move} (ha : Alone r me) (he : r.reportEvery.isSome = true)
    (hk : r.registry.drains.get? k = none)
    (ht : r.tasks.get? me = some (.call (.forgetCollector k :: rest) tolerant)) (hidle : Unreported r k)
    (hs : r.step me = some s) (hu : s.replay ms = some u) (hq : ∀ m ∈ ms, m.drainKey? ≠ some k) :
    u.board.collectors.get? k = none := by
  have first : Reachable s ∧ Hushed s k :=
    ⟨ha.reachable.later (.after (.turn me) .same hs), .forgets ha he hk ht hidle hs⟩
  have run : Reachable u ∧ Hushed u k := by
    refine replay_keeps_by (P := fun u => Reachable u ∧ Hushed u k) ?_ hq hu first
    rintro v m v' ⟨hv, hh⟩ hq hm
    exact ⟨hv.later (.after m .same hm), hh.move hv hm hq⟩
  exact run.2.free

def reporting : List Move :=
  [.addPool (market "pool") .standard 1 (fun _ => true) (some 1000)] ++ alone 4 4 ++
    [.turn 3, .call (.removePool (market "pool"))] ++ alone 5 2 ++ [.turn 3] ++ alone 5 4

/-- The call that removed the pool has returned and nothing is on the board about it; the reporter has its turn
only then and puts its status there. -/
theorem late_report :
    ∃ r s, (start fair .silent (some 10000)).replay reporting = some r ∧ r.hasEnded 5 = true ∧
    r.registry.drains.get? (market "pool") = none ∧ r.board.collectors.get? (market "pool") = none ∧
    r.replay (alone 4 2) = some s ∧ s.hasEnded 4 = true ∧
    s.board.collectors.get? (market "pool") = some .zero := by
  have facts : ((start fair .silent (some 10000)).replay reporting).any (fun r => r.hasEnded 5 = true ∧
      r.registry.drains.get? (market "pool") = none ∧ r.board.collectors.get? (market "pool") = none ∧
      (r.replay (alone 4 2)).any (fun s => s.hasEnded 4 = true ∧
        s.board.collectors.get? (market "pool") = some .zero) = true) = true := by
    decide +kernel
  obtain ⟨r, hr, facts⟩ := (Option.any_eq_true ..).mp facts
  obtain ⟨hended, hgone, hfree, facts⟩ := of_decide_eq_true facts
  obtain ⟨s, hs, facts⟩ := (Option.any_eq_true ..).mp facts
  obtain ⟨hended', hback⟩ := of_decide_eq_true facts
  exact ⟨r, s, hr, hended, hgone, hfree, hs, hended', hback⟩

end ScrapeRelay.Relay
