import ScrapeRelay.Proofs.Relay.Dispatch
import ScrapeRelay.Proofs.Relay.Removals
import ScrapeRelay.Proofs.Relay.Voices
import ScrapeRelay.Proofs.Status.Forgetting

/-!
Discoveries that were deleted. The call that deletes one waits for all who work for it and makes the board
forget it after that; those of an earlier discovery under the same key may still be at work, but their stop sign
is up.
-/

namespace ScrapeRelay.Relay

/-- What managers do: they make no cycles on call, and discoveries report where reports are asked for at all. -/
def Move.isRegular (every : Option Nat) : Move → Bool
  | .call (.runOnce _) => false
  | .addDiscovery _ _ _ reports => !reports || every.isSome
  | _ => true

inductive Reported (r : Relay) : Status.Board → Prop
  | same : Reported r r.board
  | discovery {n : Nat} {sc : Scout} (status : Discovery.Status) (hn : r.scouts.get? n = some sc)
      (hr : sc.reports = true) (hs : sc.stopped = false) : Reported r (r.board.updateDiscovery sc.key status)
  | collector (k : Key) (status : Collector.Status) : Reported r (r.board.updateCollector k status)
  | forgetsDiscovery (k : Key) : Reported r (r.board.forgetDiscovery k)
  | forgetsCollector (k : Key) : Reported r (r.board.forgetCollector k)

variable {r s u : Relay} {me n c w : Nat} {t t' : Task} {k : Key} {a : Act} {acts rest : List Act}
  {tolerant : Bool}
  {m : Move} {sc : Scout} {b : Status.Board} {every : Option Nat}

/-! The board -/

theorem Undisturbed.reported (h : Undisturbed r s) : Reported r s.board ∧ s.reportEvery = r.reportEvery :=
  ⟨h.board ▸ .same, h.every⟩

theorem writeStatus_reported (hn : r.scouts.get? n = some sc) (status : Discovery.Status) :
    Reported r (r.writeStatus sc status).board ∧ (r.writeStatus sc status).reportEvery = r.reportEvery := by
  rw [writeStatus]
  split
  · rename_i h
    rw [Bool.and_eq_true, Bool.not_eq_true'] at h
    unfold reportDiscovery
    dsimp only
    split
    · exact ⟨.same, rfl⟩
    · exact ⟨.discovery status hn h.1 h.2, rfl⟩
  · exact ⟨.same, rfl⟩

theorem cycle_reported {x : Cycle} {p : Cycle.Progress} (hn : r.scouts.get? n = some sc)
    (h : r.cycle me n sc x = some (s, p)) : Reported r s.board ∧ s.reportEvery = r.reportEvery := by
  cases cycle_advanced h with
  | stays => exact ⟨.same, rfl⟩
  | asks =>
    rw [ask]
    split <;> exact ⟨.same, rfl⟩
  | delivers hd => exact (deliver_undisturbed hd).reported
  | reports found tally =>
    have hw := writeStatus_reported hn (r.cycleStatus sc found tally)
    rw [passOn]
    split <;> exact hw

theorem Unconcerned.reported (h : Unconcerned r s) : Reported r s.board ∧ s.reportEvery = r.reportEvery :=
  ⟨h.board ▸ .same, h.every⟩

theorem Called.reported (h : Called r me tolerant acts s t') :
    Reported r s.board ∧ s.reportEvery = r.reportEvery := by
  cases h with
  | sends rest hd => exact (deliver_undisturbed hd).reported
  | cycles rest hn hc => exact cycle_reported hn hc
  | stops x rest => exact (stopSource_unconcerned r x).reported
  | joins x rest =>
    obtain ⟨scouts, hj⟩ := joinSource_eq r x
    rw [hj]
    exact ⟨.same, rfl⟩
  | forgets k rest =>
    split
    · exact ⟨.forgetsDiscovery k, rfl⟩
    · exact ⟨.same, rfl⟩
  | drops k rest =>
    split
    · exact ⟨.forgetsCollector k, rfl⟩
    · exact ⟨.same, rfl⟩
  | closes d rest => exact (closeDrain_undisturbed r d).reported
  | _ => exact ⟨.same, rfl⟩

theorem Acted.reported (h : Acted r me t s t') : Reported r s.board ∧ s.reportEvery = r.reportEvery := by
  cases h with
  | works hp hw => exact (worked_undisturbed hw).reported
  | reports n aborted next k status =>
    unfold reportCollector
    dsimp only
    split
    · exact ⟨.same, rfl⟩
    · exact ⟨.collector k status, rfl⟩
  | cycles due hn hc => exact cycle_reported hn hc
  | announces hn => exact writeStatus_reported hn _
  | calls h => exact h.reported
  | _ => exact ⟨.same, rfl⟩

theorem step_reported (hn : Numbered r) (hm : r.step me = some s) :
    Reported r s.board ∧ s.reportEvery = r.reportEvery := by
  obtain ⟨t, t', s', -, ha, -, rfl⟩ := step_acted hn hm
  exact ha.reported

theorem install_board (hm : r.move m = some s) (htu : ∀ me, m ≠ .turn me) :
    s.board = r.board ∧ s.reportEvery = r.reportEvery := by
  cases m with
  | turn me => exact absurd rfl (htu me)
  | addDiscovery k spec connected reports =>
    obtain rfl := Option.some.inj hm
    have h := installSource_unconcerned (r.addScout k spec connected reports).1 k (.scout r.fresh)
    exact ⟨h.board, h.every⟩
  | addProbeSource k collectors =>
    obtain rfl := Option.some.inj hm
    have h := installSource_unconcerned r.addProbe.1 k (.probe r.fresh collectors)
    exact ⟨h.board, h.every⟩
  | addPool k spec size accepts every =>
    obtain rfl := Option.some.inj hm
    have h := installDrain_undisturbed ((r.addOutlet accepts).1.addPool k spec r.fresh every).1 k
      (.pool (r.fresh + 1)) size
    exact ⟨h.board, h.every⟩
  | addProbeDrain k size keeps =>
    obtain rfl := Option.some.inj hm
    have h := installDrain_undisturbed r.addProbe.1 k (.probe r.fresh keeps) size
    exact ⟨h.board, h.every⟩
  | call | surround | elapse =>
    obtain rfl := Option.some.inj hm
    exact ⟨rfl, rfl⟩

theorem move_reported (hn : Numbered r) (hm : r.move m = some s) :
    Reported r s.board ∧ s.reportEvery = r.reportEvery := by
  rcases m.turn_or with ⟨me, rfl⟩ | htu
  · exact step_reported hn hm
  · obtain ⟨hb, he⟩ := install_board hm htu
    exact ⟨hb ▸ .same, he⟩

theorem Reported.keyed (h : Reported r b) (hk : r.board.gauges.Keyed) : b.gauges.Keyed := by
  cases h with
  | same => exact hk
  | discovery | collector => exact Status.Gauges.Keyed.setAll hk _ _
  | forgetsDiscovery | forgetsCollector => exact Status.Gauges.Keyed.remove hk _ _

theorem Reported.free (h : Reported r b) (hb : r.board.Free k)
    (hno : ∀ n f, r.face? n = some f → f.key = k → f.reports = true → f.stopped = true) : b.Free k := by
  cases h with
  | same => exact hb
  | @discovery n sc status hn hr hs =>
    refine hb.updateDiscovery ?_ status
    intro hk
    have hstopped : sc.stopped = true := hno n sc.face (by rw [face?, hn]; rfl) hk hr
    simp [hs] at hstopped
  | collector => exact hb.updateCollector ..
  | forgetsDiscovery => exact hb.forgetDiscovery _
  | forgetsCollector => exact hb.forgetCollector _

theorem move_face {f : Face} (hn : Numbered r) (hm : r.move m = some s) (hf : s.face? n = some f) :
    (∃ g, r.face? n = some g ∧ f.key = g.key ∧ f.reports = g.reports ∧
      (g.stopped = true → f.stopped = true)) ∨ n = r.fresh ∧ r.born? m = some f := by
  rcases m.turn_or with ⟨me, rfl⟩ | htu
  · obtain ⟨t, -, hface⟩ := step_face hn hm n
    obtain ⟨g, hg, rfl⟩ := Option.map_eq_some_iff.mp (hface.symm.trans hf)
    refine .inl ⟨g, hg, (mark_key t n g).1, (mark_key t n g).2, fun hs => ?_⟩
    by_contra hno
    simp [(mark_stopped (by simpa using hno)).1] at hs
  · have hface := install_face hn hm htu n
    rw [hf] at hface
    split at hface
    · rename_i hfresh
      exact .inr ⟨hfresh, hface.symm⟩
    · obtain ⟨g, hg, rfl⟩ := Option.map_eq_some_iff.mp hface.symm
      refine .inl ⟨g, hg, ?_⟩
      rw [retired]
      split
      · exact ⟨rfl, rfl, fun _ => rfl⟩
      · exact ⟨rfl, rfl, id⟩

/-! Runs of a manager -/

structure Regular (every : Option Nat) (r : Relay) : Prop where
  reachable : Reachable r
  asked : r.reportEvery.isSome = every.isSome
  keyed : r.board.gauges.Keyed
  mute : every.isSome = false → ∀ n f, r.face? n = some f → f.reports = false
  blank : every.isSome = false → ∀ k, r.board.Free k
  uncalled : ∀ w n c, r.view Task.head? w ≠ some (.cycle n c)

theorem Regular.start (inventory : Cluster.Inventory) (network : Network) (every : Option Nat) :
    Regular every (start inventory network every) where
  reachable := ⟨inventory, network, every, .same⟩
  asked := by simp [Relay.start]
  keyed := Status.Board.empty_keyed
  mute _ n f hf := by simp [face?, Relay.start] at hf
  blank _ k := Status.Board.empty_free k
  uncalled w n c hw := by simp [view, Relay.start] at hw

theorem Regular.move (h : Regular every r) (hq : m.isRegular every = true) (hm : r.move m = some s) :
    Regular every s := by
  have hn := h.reachable.numbered
  obtain ⟨hb, he⟩ := move_reported hn hm
  refine ⟨h.reachable.later (.after m .same hm), by rw [he, h.asked], hb.keyed h.keyed, ?_, ?_, ?_⟩
  · intro hnone n f hf
    rcases move_face hn hm hf with ⟨g, hg, -, hr, -⟩ | ⟨-, hborn⟩
    · rw [hr, h.mute hnone n g hg]
    · cases m with
      | addDiscovery k spec connected reports =>
        obtain rfl := Option.some.inj hborn
        simpa [Move.isRegular, hnone] using hq
      | _ => cases hborn
  · intro hnone k
    refine hb.free (h.blank hnone k) fun n f hf _ hr => ?_
    simp [h.mute hnone n f hf] at hr
  · intro w n c hw
    rcases move_head h.reachable hm hw rfl with hw | ⟨a, -, ha, hf⟩ | ⟨d, rfl, hd⟩
    · exact h.uncalled w n c hw
    · cases hf
      exact h.uncalled w n _ ha
    · cases d with
      | runOnce => cases hq
      | _ => cases hd

/-! Silence -/

/-- Nothing is on the board about the discovery under a key, and whoever has that key may not put anything
there. -/
structure Silent (r : Relay) (k : Key) : Prop where
  free : r.board.Free k
  stopped : ∀ n f, r.face? n = some f → f.key = k → f.stopped = true

theorem stopped_move (h : ∀ n f, r.face? n = some f → f.key = k → f.stopped = true) (hn : Numbered r)
    (hm : r.move m = some s) (hq : m.sourceKey? ≠ some k) :
    ∀ n f, s.face? n = some f → f.key = k → f.stopped = true := by
  intro n f hf hk
  rcases move_face hn hm hf with ⟨g, hg, hkey, -, hstop⟩ | ⟨-, hborn⟩
  · exact hstop (h n g hg (hkey ▸ hk))
  · cases m with
    | addDiscovery k' spec connected reports =>
      obtain rfl := Option.some.inj hborn
      exact absurd (congrArg some hk) hq
    | _ => cases hborn

theorem Silent.move (h : Silent r k) (hn : Numbered r) (hm : r.move m = some s) (hq : m.sourceKey? ≠ some k) :
    Silent s k :=
  ⟨(move_reported hn hm).1.free h.free fun n f hf hk _ => h.stopped n f hf hk, stopped_move h.stopped hn hm hq⟩

theorem Silent.forgets (h : Regular every r) (ha : Alone r me) (hk : r.registry.sources.get? k = none)
    (ht : r.tasks.get? me = some (.call (.forgetDiscovery k :: rest) tolerant)) (hm : r.move (.turn me) = some s) :
    Silent s k := by
  have hn := ha.reachable.numbered
  have hstopped (n : Nat) (f : Face) (hf : r.face? n = some f) (hkey : f.key = k) : f.stopped = true := by
    by_contra hs
    -- only this call could be about to stop a discovery that is not registered any more, and it is past that
    rcases ha.reachable.kept n f hf (by simpa using hs) with hreg | ⟨w, acts, tolerant', hw⟩
    · simp [hkey, hk] at hreg
    · obtain rfl := ha.sole w _ _ hw rfl
      simp [ht] at hw
  refine ⟨?_, stopped_move hstopped hn hm (by simp [Move.sourceKey?])⟩
  obtain ⟨s', t', hc, rfl⟩ := step_called ht hm
  cases hc with
  | forgets k rest =>
    split
    · exact Status.Board.forgetDiscovery_free h.keyed k
    · -- nobody reports, so there was nothing to forget
      rename_i hno
      refine h.blank ?_ k
      rw [← h.asked]
      simpa using hno

/-! Deleting -/

/-- A call is to remove what is under a key for as long as something is there. -/
def Asked (r : Relay) (me : Nat) (k : Key) : Prop :=
  r.registry.sources.get? k = none ∨ r.tasks.get? me = some (.call [.removeSource k] false)

theorem Asked.move (h : Asked r me k) (hn : Numbered r) (hm : r.move m = some s) (hq : m.sourceKey? ≠ some k) :
    Asked s me k := by
  rcases h with hk | ht
  · exact .inl (move_unregistered hn hm hq hk)
  · by_cases hme : m = .turn me
    · subst hme
      left
      obtain ⟨s', t', hc, rfl⟩ := step_called ht hm
      cases hc with
      | removesSource rest hx => exact (Dict.get?_erase ..).trans (if_pos rfl)
      | missesSource f rest hx => exact hx
    · exact .inr (task_kept hn hm ht hme (by simp))

structure Deleting (every : Option Nat) (r : Relay) (me n : Nat) (k : Key) : Prop where
  regular : Regular every r
  alone : Alone r me
  asked : Asked r me k
  removal : Removal (Silent · k) r me n k
  known : n < r.fresh

theorem Deleting.call (h : Regular every r) (hb : r.isBusy = false)
    (hk : r.registry.sources.get? k = some (.scout n))
    (hm : r.move (.call (.removeDiscovery k)) = some s) : Deleting every s r.fresh n k := by
  have hregular := h.move rfl hm
  have halone := Alone.call h.reachable hb hm
  have hn := h.reachable.numbered.sources k _ hk
  obtain rfl := Option.some.inj hm
  exact ⟨hregular, halone, .inr (get?_setTask ..), .registered hk, Nat.lt_succ_of_lt hn⟩

theorem Deleting.move (h : Deleting every r me n k) (hq : m.isRegular every = true ∧ m.isManaging = false)
    (hm : r.move m = some s) : Deleting every s me n k := by
  have hn := h.alone.reachable.numbered
  have hkey : m.sourceKey? ≠ some k := by simp [sourceKey?_managing hq.2]
  refine ⟨h.regular.move hq.1 hm, h.alone.move hm hq.2, h.asked.move hn hm hkey, ?_,
    Nat.lt_of_lt_of_le h.known (move_fresh hn hm)⟩
  refine h.removal.move h.alone hm hq.2 ?_ fun hs => hs.move hn hm hkey
  rintro rest tolerant rfl hk ht
  exact Silent.forgets h.regular h.alone hk ht hm

/-! Deleted discoveries -/

structure Deleted (every : Option Nat) (r : Relay) (n : Nat) (k : Key) : Prop where
  regular : Regular every r
  known : n < r.fresh
  unstaffed : Unstaffed r n
  silent : Silent r k

theorem Deleting.ended (h : Deleting every r me n k) (he : r.hasEnded me = true) : Deleted every r n k := by
  have hk : r.registry.sources.get? k = none := by
    rcases h.asked with hk | ht
    · exact hk
    · simp [hasEnded, ht, Task.isEnded] at he
  rcases h.removal.ended he with hreg | ⟨-, hu, hs⟩
  · simp [hk] at hreg
  · exact ⟨h.regular, h.known, hu, hs⟩

theorem Deleted.move (h : Deleted every r n k) (hq : m.isRegular every = true ∧ m.sourceKey? ≠ some k)
    (hm : r.move m = some s) : Deleted every s n k where
  regular := h.regular.move hq.1 hm
  known := Nat.lt_of_lt_of_le h.known (move_fresh h.regular.reachable.numbered hm)
  unstaffed := h.unstaffed.move h.regular.reachable h.known hm
  silent := h.silent.move h.regular.reachable.numbered hm hq.2

structure Event.Without (n : Nat) (k : Key) (e : Event) : Prop where
  began : ∀ w, e ≠ .began n w
  status : ∀ status, e ≠ .discoveryStatus k status

theorem scout?_cases (h : t.scout? = some n) : t.runner? = some n ∨ ∃ c, t.head? = some (.cycle n c) := by
  cases t with
  | loop | announcement => exact .inl h
  | call acts tolerant =>
    cases acts with
    | nil => cases h
    | cons a rest =>
      cases a with
      | cycle n' c =>
        obtain rfl := Option.some.inj h
        exact .inr ⟨c, rfl⟩
      | _ => cases h
  | _ => cases h

theorem Deleted.tells (h : Deleted every r n k) (hm : r.move m = some s) : Adds r s (Event.Without n k) := by
  have hr := h.regular.reachable
  rcases m.turn_or with ⟨me, rfl⟩ | htu
  · obtain ⟨t, ht, hj⟩ := step_tells hr.numbered hm
    refine hj.mono fun e he => ⟨?_, ?_⟩
    · rintro w rfl
      cases he with
      | begins w hsc =>
        rcases scout?_cases hsc with hrun | ⟨c, hcall⟩
        · exact h.unstaffed me ((view_eq ht).trans hrun)
        · exact h.regular.uncalled me n c ((view_eq ht).trans hcall)
      | works _ hw => cases hw
    · rintro status rfl
      generalize hev : Event.discoveryStatus k status = e at he
      cases he with
      | @states t i sc status' hsc hn hreports hs =>
        obtain ⟨rfl, -⟩ := Event.discoveryStatus.inj hev
        have hstopped := h.silent.stopped i sc.face (by rw [face?, hn]; rfl) rfl
        exact absurd (hs.symm.trans hstopped) (by simp)
      | works _ hw =>
        subst hev
        cases hw
      | _ => cases hev
  · refine (move_tells hr hm htu).mono fun e he => ?_
    cases he <;> exact ⟨by simp, by simp⟩

/-! Those who worked for it -/

theorem Acted.runs_on (h : Acted r me t s t') (ht : t.runner? = some n) :
    t'.runner? = some n ∨ ∃ o, t' = .ended o := by
  cases h with
  | begins => exact .inl ht
  | cycles due hn hc h => rcases h with ⟨_, rfl⟩ | rfl <;> exact .inl ht
  | rests | announces | silent => exact .inr ⟨_, rfl⟩
  | _ => cases ht

theorem move_runs_on (hn : Numbered r) (hm : r.move m = some s) (hw : r.view Task.runner? w = some n) :
    s.view Task.runner? w = some n ∨ ∃ o, s.tasks.get? w = some (.ended o) := by
  obtain ⟨t, ht, hrun⟩ := Option.bind_eq_some_iff.mp hw
  by_cases hwm : m = .turn w
  · subst hwm
    obtain ⟨t₀, t', s', ht₀, ha, -, rfl⟩ := step_acted hn hm
    obtain rfl := Option.some.inj (ht.symm.trans ht₀)
    have hs : (s'.setTask w t').tasks.get? w = some t' := get?_setTask ..
    rcases ha.runs_on hrun with h | ⟨o, rfl⟩
    · exact .inl ((view_eq hs).trans h)
    · exact .inr ⟨o, hs⟩
  · refine .inl ((view_eq (task_kept hn hm ht hwm ?_)).trans hrun)
    rintro i aborted next stage rfl
    cases hrun

theorem Later.run_out (h : Later r s) (hr : Reachable r) (hw : r.view Task.runner? w = some n)
    (hu : Unstaffed s n) : ∃ o, s.tasks.get? w = some (.ended o) := by
  have hrun : s.view Task.runner? w = some n ∨ ∃ o, s.tasks.get? w = some (.ended o) := by
    refine h.keeps (P := fun s => s.view Task.runner? w = some n ∨ ∃ o, s.tasks.get? w = some (.ended o)) ?_
      hr (.inl hw)
    intro r m s hr h hm
    rcases h with h | ⟨o, h⟩
    · exact move_runs_on hr.numbered hm h
    · exact .inr ⟨o, ended_kept hr.numbered hm h⟩
  exact hrun.resolve_left (hu w)

theorem Later.brings_nothing {o : Outcome} (h : Later r s) (hr : Reachable r)
    (hw : r.tasks.get? w = some (.ended o)) : s.brought w = r.brought w := by
  refine (h.keeps (P := fun s => s.tasks.get? w = some (.ended o) ∧ s.brought w = r.brought w) ?_ hr
    ⟨hw, rfl⟩).2
  rintro q m s hq ⟨hw, hb⟩ hm
  have hne : m ≠ .turn w := by
    rintro rfl
    simp [Relay.move, step, hw, turn] at hm
  obtain ⟨i, ts, ha⟩ := move_admits hq.numbered hm hne
  exact ⟨ended_kept hq.numbered hm hw, ((hq.clear hw rfl).admits ha).brought.trans hb⟩

theorem not_entered {events : List Event} {x : Target} (hj : s.journal = events ++ r.journal)
    (hb : s.brought w = r.brought w) : .entered c (some w) x ∉ events := by
  intro he
  have hnone := told_silent hj hb _ he
  simp [Event.brought?] at hnone

theorem Deleted.later {ms : List Move} (h : Deleted every r n k) (hs : r.replay ms = some s)
    (hq : ∀ m ∈ ms, m.isRegular every = true ∧ m.sourceKey? ≠ some k) :
    Deleted every s n k ∧ Adds r s (Event.Without n k) := by
  refine replay_keeps_by (P := fun s => Deleted every s n k ∧ Adds r s (Event.Without n k)) ?_ hq hs
    ⟨h, .nothing rfl⟩
  rintro u m v ⟨hu, hj⟩ hq hm
  exact ⟨hu.move hq hm, hj.trans (hu.tells hm)⟩

/-- A deleted discovery stays deleted: from the end of the call that deletes it until something is installed
under its key again, the board holds nothing about that key, nobody works for the discovery, and what happens is
without a cycle of it, without a status under its key, and without a target from whoever worked for it. -/
theorem deletion_lasts {inventory : Cluster.Inventory} {network : Network} {r s t u : Relay}
    {before during after : List Move}
    (hb : (start inventory network every).replay before = some r)
    (hbefore : ∀ m ∈ before, m.isRegular every = true)
    (hfree : r.isBusy = false) (hk : r.registry.sources.get? k = some (.scout n))
    (hs : r.move (.call (.removeDiscovery k)) = some s) (hd : s.replay during = some t)
    (hduring : ∀ m ∈ during, m.isRegular every = true ∧ m.isManaging = false)
    (he : t.hasEnded r.fresh = true)
    (ha : t.replay after = some u)
    (hafter : ∀ m ∈ after, m.isRegular every = true ∧ m.sourceKey? ≠ some k) :
    u.board.Free k ∧ Unstaffed u n ∧ ∃ events, u.journal = events ++ t.journal ∧
    (∀ w, .began n w ∉ events) ∧
      (∀ status, .discoveryStatus k status ∉ events) ∧
      ∀ q w c x, Reachable q → Later q t → q.view Task.runner? w = some n →
      .entered c (some w) x ∉ events := by
  have hr : Regular every r := replay_keeps_by (fun _ _ _ h hq hm => h.move hq hm) hbefore hb (.start ..)
  have ht : Deleted every t n k :=
    (replay_keeps_by (P := fun t => Deleting every t r.fresh n k) (fun _ _ _ h hq hm => h.move hq hm) hduring hd
      (.call hr hfree hk hs)).ended he
  obtain ⟨hu, events, hj, hwithout⟩ := ht.later ha hafter
  refine ⟨hu.silent.free, hu.unstaffed, events, hj, ?_, ?_, ?_⟩
  · exact fun w hin => (hwithout _ hin).began w rfl
  · exact fun status hin => (hwithout _ hin).status status rfl
  · intro q w c x hq hl hw
    obtain ⟨o, hended⟩ := hl.run_out hq hw ht.unstaffed
    exact not_entered hj ((replay_later ha).brings_nothing ht.regular.reachable hended)

/-- A discovery that has reported is in the middle of its next cycle when it is replaced; the new one waits
behind it. -/
def renewing : List Move :=
  let install : Move :=
    .addDiscovery (market "scan") { Discovery.Spec.standard with collectors := [⟨"", "pool"⟩] } true true
  [.addPool (market "pool") .standard 1 (fun _ => true) none, install] ++ alone 5 7 ++ alone 3 5 ++ alone 5 5 ++
    [.elapse 10000] ++ alone 5 7 ++ [install] ++ alone 7 6

def deletionRound : List Move := alone 8 3 ++ alone 3 7 ++ alone 7 7 ++ alone 3 3 ++ alone 8 3

theorem deletion_lasts_renewed : ∃ r s t u, (start fair .silent (some 10000)).replay renewing = some r ∧
    r.move (.call (.removeDiscovery (market "scan"))) = some s ∧ s.replay deletionRound = some t ∧
    t.replay (alone 5 6) = some u ∧ (r.board.discoveries.get? (market "scan")).isSome = true ∧
    t.view Task.runner? 5 = some 4 ∧ u.hasEnded 5 = true ∧ u.board.Free (market "scan") ∧ Unstaffed u 6 ∧
    ∃ events, u.journal = events ++ t.journal ∧ (∀ w, .began 6 w ∉ events) ∧
      (∀ status, .discoveryStatus (market "scan") status ∉ events) ∧
      ∀ c x, .entered c (some 7) x ∉ events := by
  have facts : ((start fair .silent (some 10000)).replay renewing).any (fun r =>
      r.isBusy = false ∧ r.fresh = 8 ∧ r.registry.sources.get? (market "scan") = some (.scout 6) ∧
      (r.board.discoveries.get? (market "scan")).isSome = true ∧ r.view Task.runner? 7 = some 6 ∧
      (r.move (.call (.removeDiscovery (market "scan")))).any fun s => (s.replay deletionRound).any fun t =>
        t.hasEnded 8 = true ∧ t.view Task.runner? 5 = some 4 ∧
        (t.replay (alone 5 6)).any fun u => u.hasEnded 5) =
      true := by
    decide +kernel
  obtain ⟨r, hr, facts⟩ := (Option.any_eq_true ..).mp facts
  obtain ⟨hfree, hfresh, hscan, hboard, hworks, facts⟩ := of_decide_eq_true facts
  obtain ⟨s, hs, facts⟩ := (Option.any_eq_true ..).mp facts
  obtain ⟨t, ht, facts⟩ := (Option.any_eq_true ..).mp facts
  obtain ⟨hended, hruns, facts⟩ := of_decide_eq_true facts
  obtain ⟨u, hu, hstopped⟩ := (Option.any_eq_true ..).mp facts
  obtain ⟨hempty, hgone, events, hj, hbegan, hstatus, hentered⟩ :=
    deletion_lasts hr (by decide) hfree hscan hs ht (by decide) (hfresh ▸ hended) hu (by decide)
  have hreach : Reachable r := ⟨fair, .silent, some 10000, replay_later hr⟩
  have hlater : Later r t := (Later.after _ .same hs).trans (replay_later ht)
  exact ⟨r, s, t, u, hr, hs, ht, hu, hboard, hruns, hstopped, hempty, hgone, events, hj, hbegan, hstatus,
    fun c x => hentered r 7 c x hreach hlater hworks⟩

end ScrapeRelay.Relay
