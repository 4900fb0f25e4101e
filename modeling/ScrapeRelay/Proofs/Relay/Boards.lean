import ScrapeRelay.Proofs.Relay.Deletions
import ScrapeRelay.Proofs.Status.Views

/-!
The board of a relay follows from its journal: as long as the board takes what it is told, it shows what a board
shows that has heard of every status and of every discovery and collector that was forgotten.
-/

namespace ScrapeRelay.Relay

open Status (Board Notice)

def Event.notice? : Event → Option Notice
  | .discoveryStatus k status => some (.discovery k status)
  | .collectorStatus k status => some (.collector k status)
  | .discoveryForgotten k => some (.discoveryGone k)
  | .collectorForgotten k => some (.collectorGone k)
  | _ => none

def noticesIn (journal : List Event) : List Notice := journal.reverse.filterMap Event.notice?

structure Hears (r s : Relay) : Prop where
  heard : ∃ events, s.journal = events ++ r.journal ∧ s.board = (noticesIn events).foldl Board.hear r.board
  refusing : s.refusing = r.refusing

def Move.accepts : Move → Bool
  | .surround _ _ _ refusing => !refusing
  | _ => true

variable {r s u : Relay} {me n c : Nat} {t t' : Task} {acts : List Act} {tolerant : Bool} {m : Move} {sc : Scout}
  {e : Event} {every : Option Nat}

namespace Hears

theorem quiet (hj : s.journal = r.journal) (hb : s.board = r.board) (hr : s.refusing = r.refusing) : Hears r s :=
  ⟨⟨[], hj, hb⟩, hr⟩

theorem silent (ha : Adds r s fun e => e.notice? = none) (hb : s.board = r.board) (hr : s.refusing = r.refusing) :
    Hears r s := by
  obtain ⟨events, hj, he⟩ := ha
  refine ⟨⟨events, hj, ?_⟩, hr⟩
  rw [hb, noticesIn, List.filterMap_eq_nil_iff.mpr fun e hm => he e (List.mem_reverse.mp hm)]
  rfl

theorem told {notice : Notice} (hj : s.journal = e :: r.journal) (he : e.notice? = some notice)
    (hb : s.board = r.board.hear notice) (hr : s.refusing = r.refusing) : Hears r s :=
  ⟨⟨[e], hj, by simp [noticesIn, he, hb]⟩, hr⟩

theorem trans (h : Hears r s) (hs : Hears s u) : Hears r u := by
  obtain ⟨⟨events, hj, hb⟩, hr⟩ := h
  obtain ⟨⟨events', hj', hb'⟩, hr'⟩ := hs
  refine ⟨⟨events' ++ events, by rw [hj', hj, List.append_assoc], ?_⟩, hr'.trans hr⟩
  rw [hb', hb, noticesIn, noticesIn, noticesIn, List.reverse_append, List.filterMap_append, List.foldl_append]

end Hears

/-! Deliveries, cycles and workers -/

theorem deliver_hears {d : Delivery} {p : Delivery.Progress} (h : r.deliver me d = some (s, p)) : Hears r s := by
  cases deliver_forwarded h with
  | enters => exact .silent (.one rfl rfl) rfl rfl
  | _ => exact .quiet rfl rfl rfl

theorem writeStatus_hears (ho : r.refusing = false) (sc : Scout) (status : Discovery.Status) :
    Hears r (r.writeStatus sc status) := by
  rw [writeStatus]
  split
  · refine .told (e := .discoveryStatus sc.key status) ?_ rfl ?_ ?_
    all_goals simp [reportDiscovery, record, ho, Board.hear]
  · exact .quiet rfl rfl rfl

theorem passOn_hears (r : Relay) (n : Nat) (sc : Scout) : Hears r (r.passOn n sc) := by
  rw [passOn]
  split
  · exact .quiet rfl rfl rfl
  · exact .silent (.one rfl rfl) rfl rfl

theorem cycle_hears {x : Cycle} {p : Cycle.Progress} (ho : r.refusing = false)
    (h : r.cycle me n sc x = some (s, p)) : Hears r s := by
  cases cycle_advanced h with
  | stays => exact .quiet rfl rfl rfl
  | asks =>
    rw [ask]
    split
    · exact .silent (.one rfl rfl) rfl rfl
    · exact .quiet rfl rfl rfl
  | delivers hd => exact deliver_hears hd
  | reports found tally => exact (writeStatus_hears ho sc _).trans (passOn_hears ..)

theorem worked_hears {p : Pool} {w : Worker} (hp : r.pools.get? n = some p) (h : Worked r me n c p w s t') :
    Hears r s := by
  have silent : Adds r s fun e => e.notice? = none := by
    refine (worked_tells hp h).mono fun e he => ?_
    cases he with
    | works _ hw => cases e <;> first | rfl | cases hw
    | delivers x hd => cases hd
    | begins w hs => cases hs
    | states status hs => cases hs
  refine .silent silent (worked_undisturbed h).board ?_
  cases h with
  | takes hw inLine hs =>
    obtain ⟨-, rfl⟩ := take?_eq hs
    cases inLine <;> rfl
  | waits => split <;> rfl
  | leaves hw inLine => cases inLine <;> rfl
  | ships =>
    rw [ship]
    split <;> rfl
  | _ => rfl

/-! Turns -/

theorem Called.hears (h : Called r me tolerant acts s t') (ho : r.refusing = false) : Hears r s := by
  cases h with
  | sends rest hd => exact deliver_hears hd
  | cycles rest hn hc => exact cycle_hears ho hc
  | stops x rest =>
    cases x with
    | probe n collectors => exact .silent (.one rfl rfl) rfl rfl
    | scout n =>
      simp only [stopSource]
      split
      · split
        · exact .quiet rfl rfl rfl
        · exact .silent (.one rfl rfl) rfl rfl
      · exact .quiet rfl rfl rfl
  | joins x rest =>
    obtain ⟨scouts, hj⟩ := joinSource_eq r x
    rw [hj]
    exact .quiet rfl rfl rfl
  | forgets k rest =>
    split
    · exact .told (e := .discoveryForgotten k) rfl rfl rfl rfl
    · exact .quiet rfl rfl rfl
  | closes d rest =>
    cases d with
    | probe n keeps =>
      rw [closeDrain_probe]
      exact .silent (.one rfl rfl) rfl rfl
    | pool n =>
      cases hp : r.pools.get? n with
      | none =>
        simp only [closeDrain, hp]
        exact .quiet rfl rfl rfl
      | some p =>
        rw [closeDrain_pool hp]
        exact .silent (.one rfl rfl) rfl rfl
  | shuts i rest => exact .silent (.one rfl rfl) rfl rfl
  | drops k rest =>
    split
    · exact .told (e := .collectorForgotten k) rfl rfl rfl rfl
    · exact .quiet rfl rfl rfl
  | _ => exact .quiet rfl rfl rfl

theorem Acted.hears (h : Acted r me t s t') (ho : r.refusing = false) : Hears r s := by
  cases h with
  | works hp hw => exact worked_hears hp hw
  | reports n aborted next k status =>
    refine .told (e := .collectorStatus k status) ?_ rfl ?_ ?_
    all_goals simp [reportCollector, record, ho, Board.hear]
  | retires hall => exact .silent (.one rfl rfl) rfl rfl
  | cycles due hn hc => exact cycle_hears ho hc
  | announces hn => exact writeStatus_hears ho _ _
  | calls h => exact h.hears ho
  | _ => exact .quiet rfl rfl rfl

/-! Installs -/

theorem stopDrain_refusing (r : Relay) (d : Drain) : (r.stopDrain d).refusing = r.refusing := by
  cases d with
  | probe => rfl
  | pool n =>
    simp only [stopDrain]
    split
    · rfl
    · split
      · rfl
      · rw [abortReporter_eq]
        rfl

theorem startDrain_refusing (r : Relay) (c : Nat) (d : Drain) : (r.startDrain c d).refusing = r.refusing := by
  cases d with
  | probe => rfl
  | pool n =>
    cases hp : r.pools.get? n with
    | none => simp only [startDrain, hp]
    | some p => rw [startDrain_pool c hp]

theorem installDrain_refusing (r : Relay) (k : Key) (d : Drain) (size : Nat) :
    (r.installDrain k d size).refusing = r.refusing := by
  have opened : (r.openChannel k size).1.refusing = r.refusing := by
    rw [openChannel]
    split <;> rfl
  have retired (r : Relay) : (r.retireDrain k).refusing = r.refusing := by
    rw [retireDrain]
    split
    · exact stopDrain_refusing (r.setRegistry (r.withoutDrain k)) _
    · rfl
  rw [installDrain_eq]
  exact (startDrain_refusing ..).trans ((retired _).trans opened)

theorem stopSource_refusing (r : Relay) (x : Source) : (r.stopSource x).refusing = r.refusing := by
  simp only [stopSource]
  split
  · rfl
  · split
    · split <;> rfl
    · rfl

theorem installSource_refusing (r : Relay) (k : Key) (x : Source) :
    (r.installSource k x).refusing = r.refusing := by
  have retired : (r.retireSource k).refusing = r.refusing := by
    rw [retireSource]
    split
    · exact stopSource_refusing (r.setRegistry (r.withoutSource k)) _
    · rfl
  have started (r : Relay) : (r.startSource x).refusing = r.refusing := by
    simp only [startSource]
    split
    · rfl
    · split
      · rfl
      · split <;> rfl
  rw [installSource_eq]
  exact (started _).trans retired

theorem install_refusing (hm : r.move m = some s) (htu : ∀ me, m ≠ .turn me) (hq : m.accepts = true)
    (ho : r.refusing = false) : s.refusing = r.refusing := by
  cases m with
  | turn me => exact absurd rfl (htu me)
  | addDiscovery k spec connected reports =>
    obtain rfl := Option.some.inj hm
    exact installSource_refusing (r.addScout k spec connected reports).1 k _
  | addProbeSource k collectors =>
    obtain rfl := Option.some.inj hm
    exact installSource_refusing r.addProbe.1 k _
  | addPool k spec size accepts every =>
    obtain rfl := Option.some.inj hm
    exact installDrain_refusing ((r.addOutlet accepts).1.addPool k spec r.fresh every).1 k _ size
  | addProbeDrain k size keeps =>
    obtain rfl := Option.some.inj hm
    exact installDrain_refusing r.addProbe.1 k _ size
  | surround inventory outage network refusing =>
    obtain rfl := Option.some.inj hm
    simpa [Move.accepts, ho] using hq
  | call | elapse =>
    obtain rfl := Option.some.inj hm
    rfl

/-! Runs -/

theorem move_hears (hr : Reachable r) (hm : r.move m = some s) (hq : m.accepts = true) (ho : r.refusing = false) :
    Hears r s := by
  rcases m.turn_or with ⟨me, rfl⟩ | htu
  · obtain ⟨t, t', s', -, ha, -, rfl⟩ := step_acted hr.numbered hm
    exact (ha.hears ho).trans (.quiet rfl rfl rfl)
  · refine .silent ((move_tells hr hm htu).mono fun e he => ?_) (install_board hm htu).1
      (install_refusing hm htu hq ho)
    cases he <;> rfl

theorem replay_hears {ms : List Move} (hr : Reachable r) (hs : r.replay ms = some s)
    (hq : ∀ m ∈ ms, m.accepts = true) (ho : r.refusing = false) : Hears r s := by
  have run : Reachable s ∧ Hears r s := by
    refine replay_keeps_by (P := fun s => Reachable s ∧ Hears r s) ?_ hq hs ⟨hr, .quiet rfl rfl rfl⟩
    rintro u m v ⟨hu, hh⟩ hq hm
    exact ⟨hu.later (.after m .same hm), hh.trans (move_hears hu hm hq (hh.refusing.trans ho))⟩
  exact run.2

theorem board_heard {inventory : Cluster.Inventory} {network : Network} {ms : List Move}
    (hs : (start inventory network every).replay ms = some s) (hq : ∀ m ∈ ms, m.accepts = true) :
    s.board = Status.heard 0 (noticesIn s.journal) := by
  obtain ⟨events, hj, hb⟩ := (replay_hears ⟨inventory, network, every, .same⟩ hs hq rfl).heard
  rw [hb, hj, start, List.append_nil]
  rfl

end ScrapeRelay.Relay
