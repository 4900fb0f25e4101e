import ScrapeRelay.Proofs.Relay.Accounts
import ScrapeRelay.Proofs.Relay.Closing
import ScrapeRelay.Proofs.Relay.Voices

/-!
The sinks of pools. Whoever ends the life of a pool, by a replacement or by a deletion, hands its sink to one
task that waits for the workers of the pool and closes the sink then. So a sink is closed once at most, and
after its last offer.
-/

namespace ScrapeRelay.Relay

def Task.closing? : Task → Option (Nat × List Nat)
  | .retirement i ws => some (i, ws)
  | .call (.await ws :: .closeSink i :: _) _ => some (i, ws)
  | .call (.closeSink i :: _) _ => some (i, [])
  | _ => none

theorem closing?_blind : Blind Task.closing? := ⟨fun _ _ _ => rfl, fun _ _ _ _ => rfl⟩

def closures (r : Relay) (i : Nat) : Nat := r.journal.count (.sinkClosed i)

inductive Closers (r s : Relay) : Prop
  | steady (hv : ∀ w, s.view Task.closing? w = r.view Task.closing? w)
      (hj : Adds r s fun e => ∀ i, e ≠ .sinkClosed i)
      (hl : ∀ n o, Owns r o (.pool n) → ∃ o, Owns s o (.pool n))
  | begins (me n : Nat) (p : Pool) (o : Owner) (hp : r.pools.get? n = some p) (ho : Owns r o (.pool n))
      (hg : Gone s (.pool n)) (hn : r.view Task.closing? me = none)
      (hv : ∀ w, s.view Task.closing? w = if w = me then some (p.sink, p.workers) else r.view Task.closing? w)
      (hj : Adds r s fun e => ∀ i, e ≠ .sinkClosed i)
      (hl : ∀ n' o, n' ≠ n → Owns r o (.pool n') → ∃ o, Owns s o (.pool n'))
  | readies (me i : Nat) (ws : List Nat) (hw : r.view Task.closing? me = some (i, ws))
      (hall : ws.all r.hasEnded = true)
      (hv : ∀ w, s.view Task.closing? w = if w = me then some (i, []) else r.view Task.closing? w)
      (hj : Adds r s fun e => ∀ i, e ≠ .sinkClosed i)
      (hl : ∀ n o, Owns r o (.pool n) → ∃ o, Owns s o (.pool n))
  | ends (me i : Nat) (ws : List Nat) (hw : r.view Task.closing? me = some (i, ws))
      (hall : ws.all r.hasEnded = true)
      (hv : ∀ w, s.view Task.closing? w = if w = me then none else r.view Task.closing? w)
      (hj : s.journal = .sinkClosed i :: r.journal)
      (hl : ∀ n o, Owns r o (.pool n) → ∃ o, Owns s o (.pool n))

variable {r s u : Relay} {me n c i w : Nat} {t t' : Task} {k : Key} {acts rest : List Act}
  {tolerant : Bool} {m : Move}
  {p : Pool} {ws : List Nat} {x : Worker}

theorem closures_adds (h : Adds r s fun e => ∀ i, e ≠ .sinkClosed i) (i : Nat) :
    s.closures i = r.closures i := by
  obtain ⟨events, hj, he⟩ := h
  rw [closures, hj, List.count_append, List.count_eq_zero_of_not_mem fun hm => he _ hm i rfl, Nat.zero_add]
  rfl

theorem closing?_requests (h : Requests acts) (tolerant : Bool) : (Task.call acts tolerant).closing? = none := by
  cases acts with
  | nil => rfl
  | cons a rest =>
    have ha := h a List.mem_cons_self
    cases a <;> simp_all [Act.isRequest, Task.closing?]

theorem closing?_ended (h : t.isEnded = true) : t.closing? = none := by
  cases t <;> simp_all [Task.isEnded, Task.closing?]

theorem Tells.closing (h : Tells r me t (.sinkClosed i)) :
    ∃ ws, t.closing? = some (i, ws) ∧ ws.all r.hasEnded = true := by
  cases h with
  | works hp he => simp [Event.isWork] at he
  | retires hall => exact ⟨_, rfl, hall⟩
  | shuts i rest tolerant => exact ⟨[], rfl, rfl⟩

inductive Task.Closes (r s : Relay) : Task → Task → Prop
  | nothing {t t' : Task} (ht : t.closing? = none) (ht' : t'.closing? = none)
      (hn : ∀ n rest tolerant, t = .call (.closeDrain (.pool n) :: rest) tolerant → r.pools.get? n = none) :
      Closes r s t t'
  | begins {n : Nat} {p : Pool} {rest : List Act} {t' : Task} (tolerant : Bool) (hp : r.pools.get? n = some p)
      (ht' : t'.closing? = some (p.sink, p.workers)) :
      Closes r s (.call (.closeDrain (.pool n) :: rest) tolerant) t'
  | readies {i : Nat} {ws : List Nat} {t t' : Task} (ht : t.closing? = some (i, ws))
      (hall : ws.all r.hasEnded = true) (ht' : t'.closing? = some (i, [])) (hs : s = r) : Closes r s t t'
  | ends {i : Nat} {ws : List Nat} {t t' : Task} (ht : t.closing? = some (i, ws)) (hall : ws.all r.hasEnded = true)
      (ht' : t'.closing? = none) (hj : s.journal = .sinkClosed i :: r.journal) : Closes r s t t'

theorem Called.requestCloses (h : Called r me tolerant acts s t') (hr : Requests acts) :
    Task.Closes r s (.call acts tolerant) t' := by
  have hno : ∀ n rest b, Task.call acts tolerant = .call (.closeDrain (.pool n) :: rest) b →
      r.pools.get? n = none := by
    rintro n rest b ⟨⟩
    have := hr _ List.mem_cons_self
    simp [Act.isRequest] at this
  refine .nothing (closing?_requests hr tolerant) ?_ hno
  cases h.undertakes hr with
  | «over» he => exact closing?_ended he
  | requests hr' => exact closing?_requests hr' tolerant
  | source | drain => rfl

theorem Called.closesSink (h : Called r me tolerant acts s t') (hc : Course acts) :
    Task.Closes r s (.call acts tolerant) t' := by
  cases hc with
  | requests hr => exact h.requestCloses hr
  | delivers d hr =>
    cases h with
    | sends rest hd ht =>
      refine .nothing rfl ?_ (by simp)
      rcases ht with ⟨d', rfl⟩ | rfl | ht
      · rfl
      · exact closing?_requests hr tolerant
      · exact closing?_ended ht
  | cycles n c hr =>
    cases h with
    | cycles rest hn hc ht =>
      refine .nothing rfl ?_ (by simp)
      rcases ht with ⟨c', rfl⟩ | ht
      · rfl
      · exact closing?_ended ht
    | strays => exact .nothing rfl (closing?_requests hr tolerant) (by simp)
  | stops | joins | joined =>
    cases h
    exact .nothing rfl rfl (by simp)
  | forgets k hr | drops k hr =>
    cases h
    exact .nothing rfl (closing?_requests hr tolerant) (by simp)
  | closes d k hr =>
    cases h
    cases d with
    | probe n keeps => exact .nothing rfl (by rw [closeDrain_probe]; rfl) (by simp)
    | pool n =>
      cases hp : r.pools.get? n with
      | none =>
        refine .nothing rfl (by simp only [closeDrain, hp]; rfl) ?_
        rintro _ _ _ ⟨⟩
        exact hp
      | some p => exact .begins tolerant hp (by rw [closeDrain_pool hp]; rfl)
  | closed ws i k hr =>
    cases h with
    | awaits rest hall => exact .readies rfl hall rfl rfl
  | shuts i k hr =>
    cases h
    have hall : ([] : List Nat).all r.hasEnded = true := rfl
    exact .ends rfl hall rfl rfl

theorem Acted.closesSink (h : Acted r me t s t') (hc : t.OnCourse) : Task.Closes r s t t' := by
  cases h with
  | works hp hw => rcases Numbered.worked_task hw with ⟨w', rfl⟩ | rfl <;> exact .nothing rfl rfl (by simp)
  | waits ht => rcases ht with rfl | ⟨_, _, rfl⟩ <;> exact .nothing rfl rfl (by simp)
  | cycles due hn hc ht => rcases ht with ⟨_, rfl⟩ | rfl <;> exact .nothing rfl rfl (by simp)
  | retires hall => exact .ends rfl hall rfl rfl
  | calls h => exact h.closesSink (hc _ _ rfl)
  | _ => exact .nothing rfl rfl (by simp)

/-! Moves -/

theorem Tells.closed_pool (h : Tells r me t (.closed (.pool n))) :
    ∃ rest tolerant, t = .call (.closeDrain (.pool n) :: rest) tolerant := by
  generalize he : Event.closed (.pool n) = e at h
  cases h with
  | works hp hw => simp [← he, Event.isWork] at hw
  | closes d rest tolerant =>
    cases d with
    | pool n' =>
      cases he
      exact ⟨rest, tolerant, rfl⟩
    | probe => cases he
  | _ => cases he

theorem Tells.not_stopped_pool : ¬ Tells r me t (.stopped (.pool n)) := by
  intro h
  generalize he : Event.stopped (.pool n) = e at h
  cases h with
  | works hp hw => simp [← he, Event.isWork] at hw
  | stops x => cases x <;> cases he
  | _ => cases he

theorem step_closers (hr : Reachable r) (hm : r.step me = some s) : Closers r s := by
  have hs : Reachable s := hr.later (.after (.turn me) .same hm)
  obtain ⟨t, t', s', ht, ha, rfl, hv⟩ := closing?_blind.step hr.numbered hm
  have htells : Adds r (s'.setTask me t') (Tells r me t) := ha.tells
  have hcourse : t.OnCourse := by
    rintro acts tolerant rfl
    exact hr.course ht
  have hview : r.view Task.closing? me = t.closing? := view_eq ht
  have lives {n : Nat} {o : Owner} (ho : Owns r o (.pool n))
      (hno : ∀ rest tolerant, t = .call (.closeDrain (.pool n) :: rest) tolerant → r.pools.get? n = none) :
      ∃ o, Owns (s'.setTask me t') o (.pool n) := by
    refine hr.lives_on hs ho (htells.mono fun e he => ⟨?_, ?_⟩)
    · rintro rfl
      exact he.not_stopped_pool
    · rintro rfl
      obtain ⟨rest, tolerant, rfl⟩ := he.closed_pool
      have hsign : (r.pools.get? n).map (·.stopped) = some false := (hr.stage _).sign ho
      simp [hno rest tolerant rfl] at hsign
  have silent (hc : t.closing? = none) : Adds r (s'.setTask me t') fun e => ∀ i, e ≠ .sinkClosed i := by
    refine htells.mono ?_
    rintro e he i rfl
    obtain ⟨ws, hws, -⟩ := he.closing
    simp [hc] at hws
  have closer {i : Nat} {ws : List Nat} (hc : t.closing? = some (i, ws)) (n : Nat) (o : Owner)
      (ho : Owns r o (.pool n)) : ∃ o, Owns (s'.setTask me t') o (.pool n) := by
    refine lives ho ?_
    rintro rest tolerant rfl
    simp [Task.closing?] at hc
  cases ha.closesSink hcourse with
  | nothing hc hc' hno =>
    refine .steady (fun w => ?_) (silent hc) fun n o ho => lives ho (hno n)
    rw [hv]
    split
    · rename_i hw
      rw [hw, hview, hc, hc']
    · rfl
  | @begins n p rest t' tolerant hp hc' =>
    have hown := owns_closing ht
    refine .begins me n p _ hp hown ?_ (hview.trans rfl) (fun w => by rw [hv, hc']) (silent rfl)
      fun n' o hne ho => ?_
    · exact (hs.stage _).gone_of_life (closes_life hr ht hm) rfl (by simp)
    · refine lives ho ?_
      rintro rest' tolerant' ⟨⟩
      exact absurd rfl hne
  | readies hc hall hc' he =>
    subst he
    exact .readies me _ _ (hview.trans hc) hall (fun w => by rw [hv, hc']) (.nothing rfl) (closer hc)
  | ends hc hall hc' hj => exact .ends me _ _ (hview.trans hc) hall (fun w => by rw [hv, hc']) hj (closer hc)

theorem hired?_closing (hk : m.drainKey? = none) : (r.hired? m).bind Task.closing? = none := by
  cases m with
  | call d => cases d <;> rfl
  | addDiscovery k spec connected reports =>
    simp only [hired?, Option.bind_some]
    split <;> rfl
  | addPool | addProbeDrain => simp [Move.drainKey?] at hk
  | _ => rfl

theorem hired?_drain (hk : m.drainKey? = some k) : r.hired? m = r.retirement? k := by
  cases m with
  | addPool | addProbeDrain =>
    obtain rfl := Option.some.inj hk
    rfl
  | _ => simp [Move.drainKey?] at hk

theorem drainKey?_stops {d : Drain} (hr : Reachable r) (hm : r.move m = some s) (hk : m.drainKey? = some k)
    (hd : r.registry.drains.get? k = some d) : .stopped d.member ∈ s.journal := by
  have told {d' : Drain} {room staff : Nat} (he : r.entered? m = some (.drain k d' room staff)) :
      .stopped d.member ∈ s.journal := by
    rw [entered?_drain_journal hr.numbered hr.stage hm he, hd]
    simp
  cases m with
  | addPool | addProbeDrain =>
    obtain rfl := Option.some.inj hk
    exact told rfl
  | _ => simp [Move.drainKey?] at hk

theorem install_closers (hr : Reachable r) (hm : r.move m = some s) (htu : ∀ me, m ≠ .turn me) :
    Closers r s := by
  have hs : Reachable s := hr.later (.after m .same hm)
  obtain ⟨w₀, hw₀, hv⟩ := closing?_blind.move hr hm htu
  have htells := move_tells hr hm htu
  have silent : Adds r s fun e => ∀ i, e ≠ .sinkClosed i := htells.mono fun e he i => by cases he <;> simp
  have lives {n : Nat} {o : Owner} (ho : Owns r o (.pool n))
      (hno : ∀ k, m.drainKey? = some k → r.registry.drains.get? k ≠ some (.pool n)) :
      ∃ o, Owns s o (.pool n) := by
    refine hr.lives_on hs ho (htells.mono fun e he => ?_)
    cases he with
    | started => simp
    | source x => cases x <;> simp [Source.member]
    | @drain k d hk hd =>
      refine ⟨?_, by simp⟩
      intro he
      cases d with
      | probe => cases he
      | pool n' =>
        cases he
        exact hno k hk hd
  have steady (hv : ∀ w, s.view Task.closing? w = if w = w₀ then none else r.view Task.closing? w)
      (hno : ∀ k n, m.drainKey? = some k → r.registry.drains.get? k ≠ some (.pool n)) : Closers r s := by
    refine .steady (fun w => ?_) silent fun n o ho => lives ho fun k hk => hno k n hk
    rw [hv]
    split
    · rename_i hw
      exact (view_fresh hr.numbered (hw ▸ hw₀)).symm
    · rfl
  cases hk : m.drainKey? with
  | none => exact steady (by simpa only [hired?_closing hk] using hv) (by simp [hk])
  | some k =>
    rw [hired?_drain hk] at hv
    cases hd : r.registry.drains.get? k with
    | none =>
      refine steady (by simpa only [retirement?, hd, Option.bind_none] using hv) fun k' n hk' => ?_
      obtain rfl := Option.some.inj (hk.symm.trans hk')
      simp [hd]
    | some d =>
      cases d with
      | probe =>
        refine steady (by simpa only [retirement?, hd, Option.bind_none] using hv) fun k' n hk' => ?_
        obtain rfl := Option.some.inj (hk.symm.trans hk')
        simp [hd]
      | pool n =>
        have ho : Owns r (.drain k) (.pool n) := by simp [Owns, hd, Drain.member]
        obtain ⟨p, hp, -⟩ := Option.map_eq_some_iff.mp ((hr.stage _).sign ho)
        simp only [retirement?, hd, hp, Option.map_some, Option.bind_some, Task.closing?] at hv
        refine .begins w₀ n p _ hp ho ?_ (view_fresh hr.numbered hw₀) hv silent fun n' o hne ho => lives ho ?_
        · have hstopped := drainKey?_stops hr hm hk hd
          exact (hs.stage _).gone_of_life ((hs.stage _).of_stopped hstopped) rfl (by simp)
        · intro k' hk' hd'
          obtain rfl := Option.some.inj (hk.symm.trans hk')
          obtain rfl := Drain.pool.inj (Option.some.inj (hd.symm.trans hd'))
          exact hne rfl

theorem move_closers (hr : Reachable r) (hm : r.move m = some s) : Closers r s := by
  rcases m.turn_or with ⟨me, rfl⟩ | htu
  · exact step_closers hr hm
  · exact install_closers hr hm htu

/-! Pools that are made, and their workers -/

theorem retireDrain_known (r : Relay) (k : Key) (n : Nat) :
    ((r.retireDrain k).pools.get? n).isSome = (r.pools.get? n).isSome := by
  rw [retireDrain]
  split
  · rename_i d _
    cases d with
    | probe => rfl
    | pool n' =>
      cases hp : r.pools.get? n' with
      | none => simp only [stopDrain, setRegistry, hp]
      | some p =>
        cases hs : p.stopped with
        | true => simp [stopDrain, setRegistry, hp, hs]
        | false =>
          rw [@stopDrain_pool (r.setRegistry (r.withoutDrain k)) n' p hp hs]
          simp only [Dict.get?_insert]
          split
          · rename_i hn
            simp [hn, hp]
          · rfl
  · rfl

theorem startDrain_known (r : Relay) (c : Nat) (d : Drain) (n : Nat) :
    ((r.startDrain c d).pools.get? n).isSome = (r.pools.get? n).isSome := by
  cases d with
  | probe => rfl
  | pool n' =>
    cases hp : r.pools.get? n' with
    | none => simp only [startDrain, hp]
    | some p =>
      rw [startDrain_pool c hp]
      simp only [Dict.get?_insert]
      split
      · rename_i hn
        simp [hn, hp]
      · rfl

theorem installDrain_known (r : Relay) (k : Key) (d : Drain) (size n : Nat) :
    ((r.installDrain k d size).pools.get? n).isSome = (r.pools.get? n).isSome := by
  have ho : (r.openChannel k size).1.pools = r.pools := by
    rw [openChannel]
    split <;> rfl
  rw [installDrain_eq]
  change (((_ : Relay).startDrain _ d).pools.get? n).isSome = _
  rw [startDrain_known, retireDrain_known, ho]

theorem move_known (hn : Numbered r) (hm : r.move m = some s) (n : Nat) :
    (s.pools.get? n).isSome = (r.pools.get? n).isSome ∨
      ∃ k spec size accepts every, m = .addPool k spec size accepts every ∧ n = r.fresh + 1 := by
  cases m with
  | turn me =>
    obtain ⟨t, t', s', ht, -, hd, rfl⟩ := step_did hn hm
    have hf : s'.fresh = r.fresh := (hn.step hm).2
    left
    change (s'.pools.get? n).isSome = _
    have apart (ha : Apart r s') : (s'.pools.get? n).isSome = (r.pools.get? n).isSome := by
      have := congrArg Option.isSome (ha.pools n)
      simpa using this
    cases hd with
    | nothing hq =>
      cases hp : r.pools.get? n with
      | some p =>
        obtain ⟨q, hq, -⟩ := hq.pools n p hp
        simp [hq]
      | none =>
        cases hs : s'.pools.get? n with
        | none => rfl
        | some q =>
          have hlt : n < s'.fresh := (hn.step hm).1.pools.lt hs
          have := (hq.founded n q hp hs).1
          omega
    | delivered d hd hs => exact apart (.sent (.inr ⟨d, hd, hs⟩))
    | worked n' c w p _ hp hs => exact apart (.worked hp hs)
  | addPool k spec size accepts every =>
    obtain rfl := Option.some.inj hm
    by_cases hne : n = r.fresh + 1
    · exact .inr ⟨k, spec, size, accepts, every, rfl, hne⟩
    · left
      change ((((r.addOutlet accepts).1.addPool k spec r.fresh every).1.installDrain k _ size).pools.get?
        n).isSome = _
      rw [installDrain_known]
      change ((r.pools.insert (r.fresh + 1) _).get? n).isSome = _
      rw [Dict.get?_insert, if_neg hne]
  | addProbeDrain k size keeps =>
    obtain rfl := Option.some.inj hm
    exact .inl (installDrain_known r.addProbe.1 k _ size n)
  | addDiscovery k spec connected reports =>
    obtain rfl := Option.some.inj hm
    left
    change (((r.addScout k spec connected reports).1.installSource k _).pools.get? n).isSome = _
    rw [(installSource_unconcerned ..).pools]
    rfl
  | addProbeSource k collectors =>
    obtain rfl := Option.some.inj hm
    left
    change ((r.addProbe.1.installSource k _).pools.get? n).isSome = _
    rw [(installSource_unconcerned ..).pools]
    rfl
  | call | surround | elapse =>
    obtain rfl := Option.some.inj hm
    exact .inl rfl

theorem move_pool (hr : Reachable r) (hp : r.pools.get? n = some p) (hm : r.move m = some s) :
    ∃ q, s.pools.get? n = some q ∧ q.sink = p.sink := by
  have hs : Reachable s := hr.later (.after m .same hm)
  rcases move_known hr.numbered hm n with hk | ⟨_, _, _, _, _, -, hn⟩
  · rw [hp] at hk
    obtain ⟨q, hq⟩ := Option.isSome_iff_exists.mp hk
    obtain ⟨log, hb⟩ := hr.booked
    obtain ⟨log', hb'⟩ := hs.booked
    have := hb.sinks n p hp
    have := hb'.sinks n q hq
    exact ⟨q, hq, by omega⟩
  · have := hr.numbered.pools.lt hp
    omega

theorem crew_kept (hr : Reachable r) (hm : r.move m = some s) (hp : r.pools.get? n = some p)
    (ht : s.tasks.get? w = some (.worker n c x)) : ∃ x, r.tasks.get? w = some (.worker n c x) := by
  by_cases ha : ∃ k spec size accepts every, m = .addPool k spec size accepts every
  · obtain ⟨k, spec, size, accepts, every, rfl⟩ := ha
    obtain rfl := Option.some.inj hm
    obtain ⟨q, a, -, -, -, hnew, hold⟩ := putPool_crew hr.numbered hr.stage k spec size accepts every
    by_cases hw : w ∈ q.workers
    · obtain ⟨rfl, -, -⟩ := Task.worker.inj (Option.some.inj ((hnew w hw).symm.trans ht))
      have := hr.numbered.pools.lt hp
      omega
    · exact ⟨x, hold w n c x hw ht⟩
  · exact move_worker hr.numbered hm
      (fun k spec size accepts every he => ha ⟨k, spec, size, accepts, every, he⟩) ht

/-! The life of a sink -/

def Unclaimed (r : Relay) (i : Nat) : Prop := ∀ w ws, r.view Task.closing? w ≠ some (i, ws)

def ClaimedBy (r : Relay) (i me : Nat) (ws : List Nat) : Prop :=
  ∀ w ws', r.view Task.closing? w = some (i, ws') ↔ w = me ∧ ws' = ws

inductive SinkStage (r : Relay) (i : Nat) : Prop
  | unborn (hp : r.pools.get? (i + 1) = none) (hc : Unclaimed r i) (hj : r.closures i = 0)
  | opened (p : Pool) (o : Owner) (hp : r.pools.get? (i + 1) = some p) (ho : Owns r o (.pool (i + 1)))
      (hc : Unclaimed r i) (hj : r.closures i = 0)
      (hs : ∀ w c x, r.tasks.get? w = some (.worker (i + 1) c x) → w ∈ p.workers)
  | closing (p : Pool) (me : Nat) (ws : List Nat) (hp : r.pools.get? (i + 1) = some p)
      (hg : Gone r (.pool (i + 1))) (hc : ClaimedBy r i me ws) (hj : r.closures i = 0)
      (hs : ∀ w c x, r.tasks.get? w = some (.worker (i + 1) c x) → w ∈ ws)
  | closed (p : Pool) (hp : r.pools.get? (i + 1) = some p) (hg : Gone r (.pool (i + 1))) (hc : Unclaimed r i)
      (hj : r.closures i = 1) (hs : ∀ w c x, r.tasks.get? w ≠ some (.worker (i + 1) c x))

namespace Closers

theorem unclaimed (h : Closers r s) (hr : Reachable r) (hc : Unclaimed r i) :
    (Unclaimed s i ∧ ∀ o, Owns r o (.pool (i + 1)) → ∃ o, Owns s o (.pool (i + 1))) ∧
    s.closures i = r.closures i ∨
      ∃ me p o, r.pools.get? (i + 1) = some p ∧ Owns r o (.pool (i + 1)) ∧ Gone s (.pool (i + 1)) ∧
        ClaimedBy s i me p.workers ∧ s.closures i = r.closures i := by
  cases h with
  | steady hv hj hl => exact .inl ⟨⟨fun w ws => by rw [hv]; exact hc w ws, hl _⟩, closures_adds hj i⟩
  | begins me n p o hp ho hg hn hv hj hl =>
    obtain ⟨log, hb⟩ := hr.booked
    have hsink := hb.sinks n p hp
    by_cases hi : p.sink = i
    · obtain rfl : n = i + 1 := by omega
      refine .inr ⟨me, p, o, hp, ho, hg, fun w ws => ?_, closures_adds hj i⟩
      rw [hv]
      split
      · simp [eq_comm, *]
      · rename_i hw
        simp [hw, hc w ws]
    · refine .inl ⟨⟨fun w ws => ?_, fun o => hl _ o (by omega)⟩, closures_adds hj i⟩
      rw [hv]
      split
      · simp [hi]
      · exact hc w ws
  | readies me i' ws' hw hall hv hj hl =>
    refine .inl ⟨⟨fun w ws => ?_, hl _⟩, closures_adds hj i⟩
    rw [hv]
    split
    · rintro ⟨⟩
      exact hc me ws' hw
    · exact hc w ws
  | ends me i' ws' hw hall hv hj hl =>
    have hi : i' ≠ i := by
      rintro rfl
      exact hc me ws' hw
    refine .inl ⟨⟨fun w ws => ?_, hl _⟩, ?_⟩
    · rw [hv]
      split
      · simp
      · exact hc w ws
    · rw [closures, hj, List.count_cons_of_ne (by simpa using hi)]
      rfl

theorem claimed (h : Closers r s) (hr : Reachable r) (hg : Gone r (.pool (i + 1))) (hc : ClaimedBy r i me ws) :
    (∃ ws', ClaimedBy s i me ws' ∧ (ws' = ws ∨ ws.all r.hasEnded = true)) ∧ s.closures i = r.closures i ∨
      (Unclaimed s i ∧ ws.all r.hasEnded = true) ∧ s.closures i = r.closures i + 1 := by
  have mine {w : Nat} {ws' : List Nat} (hw : r.view Task.closing? w = some (i, ws')) : w = me ∧ ws' = ws :=
    (hc w ws').mp hw
  cases h with
  | steady hv hj hl =>
    exact .inl ⟨⟨ws, fun w ws' => by rw [hv]; exact hc w ws', .inl rfl⟩, closures_adds hj i⟩
  | begins me' n p o hp ho hg' hn hv hj hl =>
    obtain ⟨log, hb⟩ := hr.booked
    have hsink := hb.sinks n p hp
    have hi : p.sink ≠ i := by
      rintro rfl
      obtain rfl : n = p.sink + 1 := hsink.symm
      exact hg.unowned o ho
    refine .inl ⟨⟨ws, fun w ws' => ?_, .inl rfl⟩, closures_adds hj i⟩
    rw [hv]
    split
    · rename_i hw
      rw [← hc, hw, hn]
      simp [hi]
    · exact hc w ws'
  | readies me' i' ws' hw hall hv hj hl =>
    by_cases hi : i' = i
    · subst hi
      obtain ⟨rfl, rfl⟩ := mine hw
      refine .inl ⟨⟨[], fun w ws => ?_, .inr hall⟩, closures_adds hj i'⟩
      rw [hv]
      split
      · simp [*, eq_comm]
      · rename_i hne
        simp [hne, hc w ws]
    · refine .inl ⟨⟨ws, fun w ws'' => ?_, .inl rfl⟩, closures_adds hj i⟩
      rw [hv]
      split
      · rename_i hwm
        rw [← hc, hwm, hw]
        simp [hi]
      · exact hc w ws''
  | ends me' i' ws' hw hall hv hj hl =>
    by_cases hi : i' = i
    · subst hi
      obtain ⟨rfl, rfl⟩ := mine hw
      refine .inr ⟨⟨fun w ws => ?_, hall⟩, by rw [closures, hj, List.count_cons_self]; rfl⟩
      rw [hv]
      split
      · simp
      · rename_i hne
        rw [Ne, hc]
        exact fun h => hne h.1
    · refine .inl ⟨⟨ws, fun w ws'' => ?_, .inl rfl⟩, ?_⟩
      · rw [hv]
        split
        · rename_i hwm
          rw [← hc, hwm, hw]
          simp [hi]
        · exact hc w ws''
      · rw [closures, hj, List.count_cons_of_ne (by simpa using hi)]
        rfl

end Closers

theorem ended_worker (ht : r.tasks.get? w = some (.worker n c x)) (hw : w ∈ ws) :
    ws.all r.hasEnded ≠ true := by
  intro hall
  have := List.all_eq_true.mp hall w hw
  simp [hasEnded, ht, Task.isEnded] at this

theorem SinkStage.move (h : SinkStage r i) (hr : Reachable r) (hm : r.move m = some s) : SinkStage s i := by
  have hs : Reachable s := hr.later (.after m .same hm)
  have hcl := move_closers hr hm
  have kept {p : Pool} (hp : r.pools.get? (i + 1) = some p) : ∃ q, s.pools.get? (i + 1) = some q := by
    obtain ⟨q, hq, -⟩ := move_pool hr hp hm
    exact ⟨q, hq⟩
  have gone (hg : Gone r (.pool (i + 1))) : Gone s (.pool (i + 1)) :=
    (hg.passage (move_passage hr.numbered hr.stage hm)).1
  cases h with
  | unborn hp hc hj =>
    rcases hcl.unclaimed hr hc with ⟨⟨hc', -⟩, hj'⟩ | ⟨me, p, o, hp', -⟩
    · rcases move_known hr.numbered hm (i + 1) with hk | ⟨k, spec, size, accepts, every, rfl, hi⟩
      · exact .unborn (by simpa [hp] using hk) hc' (hj'.trans hj)
      · obtain rfl := Option.some.inj hm
        obtain ⟨q, a, hq, -, -, -, hold⟩ := putPool_crew hr.numbered hr.stage k spec size accepts every
        rw [← hi] at hq
        refine .opened q (.drain k) hq ?_ hc' (hj'.trans hj) fun w c x ht => ?_
        · simp [Owns, move_registry hr.numbered hm, entered?, Registry.enter, Drain.member, hi]
        · by_contra hw
          have hstaff := hr.numbered.staff w _ c x (hold w _ c x hw ht)
          simp [hp] at hstaff
    · cases hp.symm.trans hp'
  | opened p o hp ho hc hj hcrew =>
    rcases hcl.unclaimed hr hc with ⟨⟨hc', hl⟩, hj'⟩ | ⟨me, p', o', hp', -, hg, hc', hj'⟩
    · obtain ⟨o', ho'⟩ := hl o ho
      have hlife := ((hs.stage _).life ho').trans ((hr.stage _).life ho).symm
      obtain ⟨q, hq, hw⟩ := move_workers hr.numbered hm hp hlife
      refine .opened q o' hq ho' hc' (hj'.trans hj) fun w c x ht => ?_
      obtain ⟨x', ht'⟩ := crew_kept hr hm hp ht
      exact hw ▸ hcrew w c x' ht'
    · obtain rfl := Option.some.inj (hp.symm.trans hp')
      obtain ⟨q, hq⟩ := kept hp
      refine .closing q me p.workers hq hg hc' (hj'.trans hj) fun w c x ht => ?_
      obtain ⟨x', ht'⟩ := crew_kept hr hm hp ht
      exact hcrew w c x' ht'
  | closing p me ws hp hg hc hj hcrew =>
    obtain ⟨q, hq⟩ := kept hp
    -- when those waited for have ended, nobody works for the pool
    have none (hall : ws.all r.hasEnded = true) (w c : Nat) (x : Worker) :
        s.tasks.get? w ≠ some (.worker (i + 1) c x) := by
      intro ht
      obtain ⟨x', ht'⟩ := crew_kept hr hm hp ht
      exact ended_worker ht' (hcrew w c x' ht') hall
    rcases hcl.claimed hr hg hc with ⟨⟨ws', hc', hws⟩, hj'⟩ | ⟨⟨hc', hall⟩, hj'⟩
    · refine .closing q me ws' hq (gone hg) hc' (hj'.trans hj) fun w c x ht => ?_
      obtain ⟨x', ht'⟩ := crew_kept hr hm hp ht
      rcases hws with rfl | hall
      · exact hcrew w c x' ht'
      · exact absurd ht (none hall w c x)
    · exact .closed q hq (gone hg) hc' (by rw [hj', hj]) (none hall)
  | closed p hp hg hc hj hcrew =>
    obtain ⟨q, hq⟩ := kept hp
    rcases hcl.unclaimed hr hc with ⟨⟨hc', -⟩, hj'⟩ | ⟨me, p', o', -, ho', -⟩
    · refine .closed q hq (gone hg) hc' (hj'.trans hj) fun w c x ht => ?_
      obtain ⟨x', ht'⟩ := crew_kept hr hm hp ht
      exact hcrew w c x' ht'
    · exact absurd ho' (hg.unowned o')

theorem Reachable.sinkStage (hr : Reachable r) (i : Nat) : SinkStage r i := by
  refine hr.holds (P := fun r => SinkStage r i) ?_ fun r m s hr h hm => h.move hr hm
  intro inventory network every
  refine .unborn (by simp [start]) ?_ rfl
  intro w ws h
  simp [view, start] at h

/-! What comes after what -/

def Event.sink? : Event → Option Nat
  | .offered i .. | .sinkClosed i => some i
  | _ => none

theorem SinkStage.manned (h : SinkStage r i) (ht : r.tasks.get? w = some (.worker (i + 1) c x)) :
    r.closures i = 0 := by
  cases h with
  | unborn _ _ hj | opened _ _ _ _ _ hj | closing _ _ _ _ _ _ hj => exact hj
  | closed p hp hg hc hj hs => exact absurd ht (hs w c x)

theorem SinkStage.due (h : SinkStage r i) (hw : r.view Task.closing? w = some (i, ws)) :
    r.closures i = 0 ∧ (ws.all r.hasEnded = true →
      ∀ w c x, r.tasks.get? w ≠ some (.worker (i + 1) c x)) := by
  cases h with
  | unborn _ hc | opened _ _ _ _ hc | closed _ _ _ hc => exact absurd hw (hc w ws)
  | closing p me ws' hp hg hc hj hs =>
    obtain ⟨rfl, rfl⟩ := (hc w ws).mp hw
    exact ⟨hj, fun hall v c x ht => ended_worker ht (hs v c x ht) hall⟩

theorem SinkStage.once (h : SinkStage r i) : r.closures i ≤ 1 := by
  cases h <;> omega

theorem SinkStage.after (h : SinkStage r i) (hj : .sinkClosed i ∈ r.journal) :
    r.closures i = 1 ∧ ∀ w c x, r.tasks.get? w ≠ some (.worker (i + 1) c x) := by
  have hpos : 0 < r.closures i := List.count_pos_iff.mpr hj
  cases h with
  | unborn | opened | closing => omega
  | closed p hp hg hc hj hs => exact ⟨hj, hs⟩

theorem Tells.offer {e : Event} (h : Tells r me t e) (he : e.sink? = some i) (hne : e ≠ .sinkClosed i) :
    ∃ n c w p, t = .worker n c w ∧ r.pools.get? n = some p ∧ p.sink = i := by
  cases h with
  | @works n c w p e hp hw ho ht =>
    cases e with
    | offered sink v text accepted =>
      obtain rfl := Option.some.inj he
      exact ⟨n, c, w, p, rfl, hp, (ho sink v text accepted rfl).symm⟩
    | sinkClosed => cases hw
    | _ => cases he
  | retires | shuts =>
    obtain rfl := Option.some.inj he
    exact absurd rfl hne
  | _ => cases he

theorem Reachable.closed_last (hr : Reachable r) (i : Nat) :
    r.journal.Pairwise fun later earlier => earlier = .sinkClosed i → later.sink? ≠ some i := by
  refine hr.holds (P := fun r => r.journal.Pairwise fun later earlier => earlier = .sinkClosed i →
    later.sink? ≠ some i) (fun _ _ _ => .nil) ?_
  intro r m s hr h hm
  have hstage := hr.sinkStage i
  have fresh (hj : r.closures i = 0) {e : Event} (he : e ∈ r.journal) : e ≠ .sinkClosed i := by
    rintro rfl
    have : 0 < r.closures i := List.count_pos_iff.mpr he
    omega
  have added (hj : Adds r s fun e => (∀ j, e ≠ .sinkClosed j) ∧ (e.sink? = some i → r.closures i = 0)) :
      s.journal.Pairwise fun later earlier => earlier = .sinkClosed i → later.sink? ≠ some i := by
    obtain ⟨events, hj, he⟩ := hj
    rw [hj, List.pairwise_append]
    refine ⟨List.pairwise_of_forall_mem_list fun a ha b hb hb' => absurd hb' ((he b hb).1 i), h, ?_⟩
    intro a ha b hb hb' hi
    exact fresh ((he a ha).2 hi) hb hb'
  have offers (hj : Adds r s fun e => ∀ j, e ≠ .sinkClosed j) :
      s.journal.Pairwise fun later earlier => earlier = .sinkClosed i → later.sink? ≠ some i := by
    rcases m.turn_or with ⟨me, rfl⟩ | htu
    · obtain ⟨t, ht, htells⟩ := step_tells hr.numbered hm
      refine added ((hj.and htells).mono fun e he => ⟨he.1, fun hi => ?_⟩)
      obtain ⟨n, c, w, p, rfl, hp, rfl⟩ := he.2.offer hi (he.1 i)
      obtain ⟨log, hb⟩ := hr.booked
      rw [← hb.sinks n p hp] at ht
      exact hstage.manned ht
    · have htells := move_tells hr hm htu
      refine added ((hj.and htells).mono fun e he => ⟨he.1, fun hi => ?_⟩)
      obtain ⟨-, he⟩ := he
      cases he <;> cases hi
  cases move_closers hr hm with
  | steady _ hj => exact offers hj
  | begins _ _ _ _ _ _ _ _ _ hj => exact offers hj
  | readies _ _ _ _ _ _ hj => exact offers hj
  | ends me i' ws hw hall hv hj =>
    rw [hj]
    refine List.pairwise_cons.mpr ⟨fun e he he' hi => ?_, h⟩
    obtain rfl := Option.some.inj hi
    exact fresh (hstage.due hw).1 he he'

/-! Deletions -/

inductive Closure (r : Relay) (me n i : Nat) : Prop
  | taken {rest : List Act} {tolerant : Bool}
      (ht : r.tasks.get? me = some (.call (.closeDrain (.pool n) :: rest) tolerant))
  | waiting {ws : List Nat} (hw : r.view Task.closing? me = some (i, ws))
  | done (hj : .sinkClosed i ∈ r.journal)

namespace Closure

theorem closes (hr : Reachable r) (hp : r.pools.get? n = some p)
    (ht : r.tasks.get? me = some (.call (.closeDrain (.pool n) :: rest) tolerant)) (hm : r.step me = some s) :
    Closure s me n p.sink := by
  obtain ⟨t, t', s', ht', ha, rfl, hv⟩ := closing?_blind.step hr.numbered hm
  obtain rfl := Option.some.inj (ht.symm.trans ht')
  have hview : (s'.setTask me t').view Task.closing? me = some (p.sink, p.workers) := by
    rw [hv, if_pos rfl]
    cases ha with
    | calls h =>
      cases h
      rw [closeDrain_pool hp]
      rfl
  exact .waiting hview

theorem move (h : Closure r me n i) (hr : Reachable r) (hp : r.pools.get? n = some p) (hi : p.sink = i)
    (hm : r.move m = some s) : Closure s me n i := by
  cases h with
  | taken ht =>
    by_cases htu : m = .turn me
    · subst htu
      exact hi ▸ closes hr hp ht hm
    · exact .taken (task_kept hr.numbered hm ht htu (by simp))
  | @waiting ws hw =>
    cases move_closers hr hm with
    | steady hv => exact .waiting ((hv me).trans hw)
    | begins me' n' p' o hp' ho hg hn hv =>
      have hne : me ≠ me' := by
        rintro rfl
        simp [hn] at hw
      exact .waiting (by rw [hv, if_neg hne, hw])
    | readies me' i' ws' hw' hall hv =>
      by_cases hme : me = me'
      · subst hme
        obtain ⟨rfl, rfl⟩ := Prod.mk.inj (Option.some.inj (hw.symm.trans hw'))
        exact .waiting (by rw [hv, if_pos rfl])
      · exact .waiting (by rw [hv, if_neg hme, hw])
    | ends me' i' ws' hw' hall hv hj =>
      by_cases hme : me = me'
      · subst hme
        obtain ⟨rfl, rfl⟩ := Prod.mk.inj (Option.some.inj (hw.symm.trans hw'))
        exact .done (hj ▸ List.mem_cons_self)
      · exact .waiting (by rw [hv, if_neg hme, hw])
  | done hj =>
    obtain ⟨events, hj'⟩ := move_journal hr.numbered hm
    exact .done (hj' ▸ List.mem_append_right events hj)

theorem ended (h : Closure r me n i) (he : r.hasEnded me = true) : .sinkClosed i ∈ r.journal := by
  cases h with
  | taken ht => simp [hasEnded, ht, Task.isEnded] at he
  | waiting hw =>
    obtain ⟨t, ht, hc⟩ := Option.bind_eq_some_iff.mp hw
    rw [hasEnded, ht] at he
    simp [closing?_ended he] at hc
  | done hj => exact hj

end Closure

theorem Later.journal (h : Later r s) (hr : Reachable r) : ∃ events, s.journal = events ++ r.journal := by
  refine h.keeps (P := fun s => ∃ events, s.journal = events ++ r.journal) ?_ hr ⟨[], rfl⟩
  rintro s m u hs ⟨events, hj⟩ hm
  obtain ⟨events', hj'⟩ := move_journal hs.numbered hm
  exact ⟨events' ++ events, by rw [hj', hj, List.append_assoc]⟩

theorem Reachable.closure {s' : Relay} (hr : Reachable r) (hp : r.pools.get? n = some p)
    (hd : r.registry.drains.get? k = some (.pool n))
    (ht : r.tasks.get? me = some (.call (.removeDrain k :: rest) tolerant)) (hm : r.step me = some s)
    (hl : Later s s') :
    Closure s' me n p.sink := by
  have taken : Closure s me n p.sink := by
    obtain ⟨u, t', hc, rfl⟩ := step_called ht hm
    cases hc with
    | removesDrain rest hd' =>
      obtain rfl := Option.some.inj (hd.symm.trans hd')
      exact .taken (get?_setTask ..)
    | missesDrain f rest hd' => simp [hd] at hd'
  obtain ⟨q, hq, hsink⟩ := move_pool hr hp (show r.move (.turn me) = some s from hm)
  have kept : Closure s' me n p.sink ∧ ∃ q, s'.pools.get? n = some q ∧ q.sink = p.sink := by
    refine hl.keeps (P := fun s => Closure s me n p.sink ∧ ∃ q, s.pools.get? n = some q ∧ q.sink = p.sink) ?_
      (hr.later (.after (.turn me) .same hm)) ⟨taken, q, hq, hsink⟩
    rintro u m v hu ⟨hc, q, hq, hsink⟩ hm
    obtain ⟨q', hq', hsink'⟩ := move_pool hu hq hm
    exact ⟨hc.move hu hq hsink hm, q', hq', hsink'.trans hsink⟩
  exact kept.1

/-! Workers that a pool had -/

theorem Later.told_prefix {α : Type} (h : Later r s) (hr : Reachable r) (f : Event → Option α) :
    r.told f <+: s.told f := by
  obtain ⟨events, hj⟩ := h.journal hr
  rw [told_append f hj]
  exact List.prefix_append ..

theorem OnCrew.of_worker (ht : r.tasks.get? w = some (.worker n c x)) : OnCrew r w n :=
  ⟨_, ht, .inl ⟨c, x, rfl⟩⟩

theorem OnCrew.later (h : OnCrew r w n) (hr : Reachable r) (hl : Later r s) : OnCrew s w n :=
  hl.keeps (P := fun s => OnCrew s w n) (fun _ _ _ hr h hm => h.move hr.numbered hm) hr h

theorem OnCrew.ended (h : OnCrew r w n) (hno : ∀ c x, r.tasks.get? w ≠ some (.worker n c x)) :
    r.hasEnded w = true := by
  obtain ⟨t, ht, ⟨c, x, rfl⟩ | he⟩ := h
  · exact absurd ht (hno c x)
  · rw [hasEnded, ht]
    exact he

theorem Later.faithful {q : Relay} (hl : Later q r) (hq : Reachable q)
    (ht : q.tasks.get? w = some (.worker n c x)) :
    ∃ log, Booked log r ∧ ∀ v ∈ log, v.worker = w → v.pool = n := by
  have own {r : Relay} (hw : OnCrew r w n) {n' c' : Nat} {x' : Worker}
      (ht : r.tasks.get? w = some (.worker n' c' x')) : n' = n := by
    obtain ⟨t, ht', ⟨c, x, rfl⟩ | he⟩ := hw
    · obtain ⟨rfl, -, -⟩ := Task.worker.inj (Option.some.inj (ht.symm.trans ht'))
      rfl
    · obtain rfl := Option.some.inj (ht.symm.trans ht')
      simp [Task.isEnded] at he
  have kept : OnCrew r w n ∧ ∃ log, Booked log r ∧ ∀ v ∈ log, v.worker = w → v.pool = n := by
    refine hl.keeps (P := fun r => OnCrew r w n ∧ ∃ log, Booked log r ∧ ∀ v ∈ log, v.worker = w →
      v.pool = n) ?_ hq ?_
    · rintro r m s hr ⟨hw, log, hb, hlog⟩ hm
      obtain ⟨log', hb', hfit⟩ := hb.move hr hm
      refine ⟨hw.move hr.numbered hm, log', hb', ?_⟩
      rintro v hv rfl
      rcases hfit v hv with ⟨u, hu, hworker, hpool⟩ | ⟨c', x', ht'⟩
      · exact hpool ▸ hlog u hu hworker
      · exact own hw ht'
    · obtain ⟨log, hb⟩ := hq.booked
      refine ⟨.of_worker ht, log, hb, ?_⟩
      rintro v hv rfl
      obtain ⟨t, ht', ⟨c', x', rfl⟩ | he⟩ := hb.crews v hv
      · exact own (.of_worker ht) ht'
      · obtain rfl := Option.some.inj (ht.symm.trans ht')
        simp [Task.isEnded] at he
  exact kept.2

theorem inHand_ended (he : r.hasEnded w = true) : r.inHand w = [] := by
  rw [hasEnded] at he
  cases ht : r.tasks.get? w with
  | none => simp [inHand, ht]
  | some t =>
    rw [ht] at he
    rw [inHand_eq ht]
    cases t <;> simp_all [Task.isEnded, Task.inHand?]

theorem Booked.settled {log : List Visit} (h : Booked log r) (hr : Reachable r) (hp : r.pools.get? n = some p)
    (hlog : ∀ v ∈ log, v.worker = w → v.pool = n) (he : r.hasEnded w = true) : ∃ visits : List Visit,
      (∀ v ∈ visits, v.worker = w ∧ v.pool = n ∧ v.MadeBefore p.pipeline r ∧
        p.pipeline.Accounts v.outcome (v.sums p.pipeline) (v.offers p.pipeline)) ∧
      r.receivedBy w = visits.map (·.target) ∧
      r.offeredTo p.sink w = visits.flatMap (·.offers p.pipeline) := by
  have hhand := inHand_ended he
  obtain ⟨hdone, hhandled⟩ := h.cleared (page?_inHand hhand)
  have mine {v : Visit} (hv : v ∈ visitsBy w log) : v ∈ log ∧ v.worker = w ∧ v.pool = n := by
    obtain ⟨hv, hw⟩ := List.mem_filter.mp hv
    exact ⟨hv, beq_iff_eq.mp hw, hlog v hv (beq_iff_eq.mp hw)⟩
  have hall : visitsTo n (visitsBy w log) = visitsBy w log :=
    List.filter_eq_self.mpr fun v hv => beq_iff_eq.mpr (mine hv).2.2
  refine ⟨(visitsBy w log).reverse, fun v hv => ?_, ?_, ?_⟩
  · rw [List.mem_reverse] at hv
    obtain ⟨hlogged, hw, rfl⟩ := mine hv
    obtain ⟨q, hq, hm⟩ := h.made v hlogged
    obtain rfl := Option.some.inj (hp.symm.trans hq)
    exact ⟨hw, rfl, hm, (hdone v hv).accounts p.pipeline⟩
  · rw [hr.handedOff.accounted, hhand, List.append_nil, hhandled, List.map_reverse]
  · rw [h.ordered n p w hp, visitsBy_visitsTo, hall]

def CrewGone (r : Relay) (n : Nat) : Prop :=
  ∀ q w c x, Reachable q → Later q r → q.tasks.get? w = some (.worker n c x) → r.hasEnded w = true

theorem CrewGone.of_none (hno : ∀ w c x, r.tasks.get? w ≠ some (.worker n c x)) : CrewGone r n :=
  fun _ w _ _ hq hl ht => ((OnCrew.of_worker ht).later hq hl).ended (hno w)

theorem Closers.counts (h : Closers r s) (hr : Reachable r) (hlt : r.closures i < s.closures i) :
    ∀ w c x, r.tasks.get? w ≠ some (.worker (i + 1) c x) := by
  cases h with
  | steady _ hj | begins _ _ _ _ _ _ _ _ _ hj | readies _ _ _ _ _ _ hj =>
    rw [closures_adds hj] at hlt
    omega
  | ends me i' ws hw hall hv hj =>
    by_cases hi : i' = i
    · subst hi
      exact ((hr.sinkStage i').due hw).2 hall
    · rw [closures, closures, hj, List.count_cons_of_ne (by simpa using hi)] at hlt
      omega

/-- Whenever a pool is replaced or deleted, whatever its workers are at then: nothing is offered to its sink
after the sink was closed; that happens once at most, when all who ever worked for the pool have ended, and it
has happened when the call that deletes the pool ends; and by then a worker has offered all that comes of what
it had received. -/
theorem Reachable.sink_lifecycle (hr : Reachable r) (hp : r.pools.get? n = some p) :
    (r.journal.Pairwise fun later earlier => earlier = .sinkClosed p.sink → later.sink? ≠ some p.sink) ∧
    r.closures p.sink ≤ 1 ∧
    (∀ m s, r.move m = some s → r.closures p.sink < s.closures p.sink → CrewGone r n) ∧
    (∀ k me rest tolerant s t, r.registry.drains.get? k = some (.pool n) →
      r.tasks.get? me = some (.call (.removeDrain k :: rest) tolerant) → r.step me = some s → Later s t →
        t.hasEnded me = true → t.closures p.sink = 1) ∧
    ∀ q w c x, Reachable q → Later q r → q.tasks.get? w = some (.worker n c x) →
    .sinkClosed p.sink ∈ r.journal →
      q.receivedBy w <+: r.receivedBy w ∧ ∃ visits : List Visit,
        (∀ v ∈ visits, v.worker = w ∧ v.pool = n ∧ v.MadeBefore p.pipeline r ∧
          p.pipeline.Accounts v.outcome (v.sums p.pipeline) (v.offers p.pipeline)) ∧
        r.receivedBy w = visits.map (·.target) ∧
        r.offeredTo p.sink w = visits.flatMap (·.offers p.pipeline) := by
  obtain ⟨log, hb⟩ := hr.booked
  have hn : p.sink + 1 = n := hb.sinks n p hp
  refine ⟨hr.closed_last p.sink, (hr.sinkStage p.sink).once, ?_, ?_, ?_⟩
  · intro m s hm hlt
    have hno := (move_closers hr hm).counts hr hlt
    rw [hn] at hno
    exact .of_none hno
  · intro k me rest tolerant s t hd ht hm hl he
    have hs : Reachable s := hr.later (.after (.turn me) .same hm)
    exact ((hs.later hl).sinkStage p.sink).after ((hr.closure hp hd ht hm hl).ended he) |>.1
  · intro q w c x hq hl ht hj
    have hno := ((hr.sinkStage p.sink).after hj).2
    rw [hn] at hno
    obtain ⟨log, hb, hlog⟩ := hl.faithful hq ht
    exact ⟨hl.told_prefix hq _, hb.settled hr hp hlog (CrewGone.of_none hno q w c x hq hl ht)⟩

def swappedKey : Key := ⟨"monitoring", "pool"⟩

/-- A pool is replaced when its worker has read a page and offered nothing of it. -/
def swapping : List Move :=
  [.addPool swappedKey .standard 1 (fun _ => true) none, .call (.send swappedKey [pairTarget] none),
    .turn 4, .turn 4, .turn 3, .turn 3, .addPool swappedKey .standard 1 (fun _ => true) none]

def dismantling : List Move :=
  [.turn 3, .turn 3, .turn 3, .turn 3, .turn 7, .turn 4, .call (.removePool swappedKey)]

theorem sink_lifecycle_swapped : ∃ q r s t,
    (start .empty pair none).replay swapping = some q ∧ q.replay dismantling = some r ∧
    r.move (.turn 9) = some s ∧
    s.replay [.turn 8, .turn 9, .turn 9, .turn 9, .turn 9, .turn 9] = some t ∧
    q.receivedBy 3 = [pairTarget] ∧ q.offeredTo 0 3 = [] ∧ r.closures 0 = 1 ∧
    (∃ v : Visit, ∃ p, r.pools.get? 1 = some p ∧ v.target = pairTarget ∧
      r.offeredTo 0 3 = v.offers p.pipeline ∧
      p.pipeline.Accounts v.outcome (v.sums p.pipeline) (v.offers p.pipeline)) ∧
    t.hasEnded 9 = true ∧ t.closures 5 = 1 := by
  have facts : ((start .empty pair none).replay swapping).any (fun q =>
      (q.page? 3).map (fun x => (x.1, x.2.1)) = some (1, pairTarget) ∧ q.receivedBy 3 = [pairTarget] ∧
      q.offeredTo 0 3 = [] ∧ (q.replay dismantling).any fun r =>
        (r.pools.get? 1).map (·.sink) = some 0 ∧ (r.pools.get? 6).map (·.sink) = some 5 ∧
        r.receivedBy 3 = [pairTarget] ∧
        .sinkClosed 0 ∈ r.journal ∧ r.registry.drains.get? swappedKey = some (.pool 6) ∧
        r.view Task.call? 9 = some ([.removeDrain swappedKey], false) ∧ (r.step 9).any fun s =>
          (s.replay [.turn 8, .turn 9, .turn 9, .turn 9, .turn 9, .turn 9]).any (·.hasEnded 9)) = true := by
    decide +kernel
  obtain ⟨q, hq, facts⟩ := (Option.any_eq_true ..).mp facts
  obtain ⟨hpage, hread, hsilent, facts⟩ := of_decide_eq_true facts
  obtain ⟨r, hr, facts⟩ := (Option.any_eq_true ..).mp facts
  obtain ⟨hold, hnew, hreceived, hclosed, hdrain, hcall, facts⟩ := of_decide_eq_true facts
  obtain ⟨s, hs, facts⟩ := (Option.any_eq_true ..).mp facts
  obtain ⟨t, ht, hended⟩ := (Option.any_eq_true ..).mp facts
  obtain ⟨p, hp, hsink⟩ := Option.map_eq_some_iff.mp hold
  obtain ⟨p', hp', hsink'⟩ := Option.map_eq_some_iff.mp hnew
  have hqr : Reachable q := ⟨.empty, pair, none, replay_later hq⟩
  have hrr : Reachable r := hqr.later (replay_later hr)
  obtain ⟨c, x, hworker⟩ : ∃ c x, q.tasks.get? 3 = some (.worker 1 c x) := by
    obtain ⟨⟨n, y, rest⟩, hpage, he⟩ := Option.map_eq_some_iff.mp hpage
    obtain ⟨rfl, rfl⟩ := Prod.mk.inj he
    obtain ⟨t, ht, hpage⟩ := Option.bind_eq_some_iff.mp hpage
    cases t with
    | worker n c x =>
      cases x <;> cases hpage
      exact ⟨c, _, ht⟩
    | _ => cases hpage
  obtain ⟨-, honce, -, -, hworked⟩ := hrr.sink_lifecycle hp
  obtain ⟨-, -, -, hdeleted, -⟩ := hrr.sink_lifecycle hp'
  obtain ⟨-, visits, hvisits, htargets, hoffers⟩ :=
    hworked q 3 c x hqr (replay_later hr) hworker (hsink ▸ hclosed)
  have hpos : 0 < r.closures 0 := List.count_pos_iff.mpr hclosed
  rw [hsink] at honce hoffers
  refine ⟨q, r, s, t, hq, hr, hs, ht, hread, hsilent, by omega, ?_, hended, ?_⟩
  · rw [hreceived] at htargets
    obtain ⟨v, rfl, hv⟩ := List.map_eq_singleton_iff.mp htargets.symm
    obtain ⟨-, -, -, haccounts⟩ := hvisits v List.mem_cons_self
    exact ⟨v, p, hp, hv, by rw [hoffers, List.flatMap_singleton], haccounts⟩
  · exact hsink' ▸ hdeleted swappedKey 9 [] false s t hdrain (view_call.mp hcall) hs (replay_later ht) hended

end ScrapeRelay.Relay
