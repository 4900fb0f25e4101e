import ScrapeRelay.Proofs.Relay.Rosters

/-!
Who changes the cluster. The tasks of a relay only look at it, and so does whoever makes calls or installs
resources: it is as it was after every move but those of the surroundings themselves.
-/

namespace ScrapeRelay.Relay

def cluster (r : Relay) : Cluster.Inventory × Cluster.Outage := (r.inventory, r.outage)

variable {r s : Relay} {me n c : Nat} {t t' : Task} {k : Key} {acts : List Act} {tolerant : Bool} {m : Move}
  {sc : Scout}

/-! Turns -/

theorem deliver_cluster {d : Delivery} {p : Delivery.Progress} (h : r.deliver me d = some (s, p)) :
    s.cluster = r.cluster := by
  cases deliver_forwarded h <;> rfl

theorem worked_cluster {p : Pool} {w : Worker} (h : Worked r me n c p w s t') : s.cluster = r.cluster := by
  cases h with
  | takes hw inLine hs =>
    obtain ⟨-, rfl⟩ := take?_eq hs
    cases inLine <;> rfl
  | waits => split <;> rfl
  | leaves hw inLine => cases inLine <;> rfl
  | scrapes | misses | ends => rfl
  | ships =>
    rw [ship]
    split <;> rfl

theorem Aside.cluster (h : Aside r s) : s.cluster = r.cluster := by
  cases h
  rfl

theorem cycle_cluster {x : Cycle} {p : Cycle.Progress} (h : r.cycle me n sc x = some (s, p)) :
    s.cluster = r.cluster := by
  cases cycle_advanced h with
  | stays => rfl
  | asks =>
    rw [ask]
    split <;> rfl
  | delivers hd => exact deliver_cluster hd
  | reports found tally =>
    rw [passOn]
    split <;> exact (Aside.writeStatus r sc _).cluster

theorem stopSource_cluster (r : Relay) (x : Source) : (r.stopSource x).cluster = r.cluster := by
  simp only [stopSource]
  split
  · rfl
  · split
    · split <;> rfl
    · rfl

theorem closeDrain_cluster (r : Relay) (d : Drain) : (r.closeDrain d).1.cluster = r.cluster := by
  cases d with
  | probe n keeps =>
    rw [closeDrain_probe]
    rfl
  | pool n =>
    cases hp : r.pools.get? n with
    | none => simp only [closeDrain, hp]
    | some p =>
      rw [closeDrain_pool hp]
      rfl

theorem Called.cluster (h : Called r me tolerant acts s t') : s.cluster = r.cluster := by
  cases h with
  | sends rest hd => exact deliver_cluster hd
  | cycles rest hn hc => exact cycle_cluster hc
  | stops x rest => exact stopSource_cluster r x
  | joins x rest => exact (Aside.joinSource r x).cluster
  | forgets k rest | drops k rest => split <;> rfl
  | closes d rest => exact closeDrain_cluster r d
  | _ => rfl

theorem Acted.cluster (h : Acted r me t s t') : s.cluster = r.cluster := by
  cases h with
  | works hp hw => exact worked_cluster hw
  | reports n aborted next k status => exact (Aside.reportCollector r k status).cluster
  | cycles due hn hc => exact cycle_cluster hc
  | announces hn => exact (Aside.writeStatus r _ _).cluster
  | calls h => exact h.cluster
  | _ => rfl

theorem step_cluster (hn : Numbered r) (hs : r.step me = some s) : s.cluster = r.cluster := by
  obtain ⟨t, t', s', -, ha, -, rfl⟩ := step_acted hn hs
  exact ha.cluster

/-! Installs -/

theorem startSource_cluster (r : Relay) (x : Source) : (r.startSource x).cluster = r.cluster := by
  simp only [startSource]
  split
  · rfl
  · split
    · rfl
    · split <;> rfl

theorem installSource_cluster (r : Relay) (k : Key) (x : Source) : (r.installSource k x).cluster = r.cluster := by
  have retired : (r.retireSource k).cluster = r.cluster := by
    rw [retireSource]
    split
    · exact stopSource_cluster (r.setRegistry (r.withoutSource k)) _
    · rfl
  rw [installSource_eq]
  exact (startSource_cluster (r.retireSource k) x).trans retired

theorem stopDrain_cluster (r : Relay) (d : Drain) : (r.stopDrain d).cluster = r.cluster := by
  cases d with
  | probe => rfl
  | pool n =>
    cases hp : r.pools.get? n with
    | none => simp only [stopDrain, hp]
    | some p =>
      cases hs : p.stopped with
      | true => simp only [stopDrain, hp, hs, if_true]
      | false =>
        rw [stopDrain_pool hp hs]
        rfl

theorem startDrain_cluster (r : Relay) (c : Nat) (d : Drain) : (r.startDrain c d).cluster = r.cluster := by
  cases d with
  | probe => rfl
  | pool n =>
    cases hp : r.pools.get? n with
    | none => simp only [startDrain, hp]
    | some p =>
      rw [startDrain_pool c hp]
      rfl

theorem installDrain_cluster (r : Relay) (k : Key) (d : Drain) (size : Nat) :
    (r.installDrain k d size).cluster = r.cluster := by
  have opened : (r.openChannel k size).1.cluster = r.cluster := by
    rw [openChannel]
    split <;> rfl
  have retired (r : Relay) : (r.retireDrain k).cluster = r.cluster := by
    rw [retireDrain]
    split
    · exact stopDrain_cluster (r.setRegistry (r.withoutDrain k)) _
    · rfl
  rw [installDrain_eq]
  exact (startDrain_cluster _ (r.openChannel k size).2 d).trans ((retired _).trans opened)

theorem move_cluster (hn : Numbered r) (hm : r.move m = some s)
    (hs : ∀ inventory outage network refusing, m ≠ .surround inventory outage network refusing) :
    s.cluster = r.cluster := by
  cases m with
  | turn me => exact step_cluster hn hm
  | surround inventory outage network refusing => exact absurd rfl (hs inventory outage network refusing)
  | addDiscovery k spec connected reports =>
    obtain rfl := Option.some.inj hm
    exact installSource_cluster (r.addScout k spec connected reports).1 k _
  | addProbeSource k collectors =>
    obtain rfl := Option.some.inj hm
    exact installSource_cluster r.addProbe.1 k _
  | addPool k spec size accepts every =>
    obtain rfl := Option.some.inj hm
    exact installDrain_cluster ((r.addOutlet accepts).1.addPool k spec r.fresh every).1 k _ size
  | addProbeDrain k size keeps =>
    obtain rfl := Option.some.inj hm
    exact installDrain_cluster r.addProbe.1 k _ size
  | call | elapse =>
    obtain rfl := Option.some.inj hm
    rfl

end ScrapeRelay.Relay
