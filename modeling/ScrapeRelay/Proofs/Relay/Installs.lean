import ScrapeRelay.Proofs.Dict
import ScrapeRelay.Proofs.Relay.Turns

/-!
Installing in parts: the channel is opened, the old member under the key is taken from the registry and
stopped, the new one is started and then registered. What each part does to the relay is written out.
-/

namespace ScrapeRelay.Relay

def setRegistry (r : Relay) (registry : Registry) : Relay := { r with registry }

def withoutSource (r : Relay) (k : Key) : Registry := { r.registry with sources := r.registry.sources.erase k }

def withoutDrain (r : Relay) (k : Key) : Registry := { r.registry with drains := r.registry.drains.erase k }

def retireSource (r : Relay) (k : Key) : Relay :=
  match r.registry.sources.get? k with
  | some old => (r.setRegistry (r.withoutSource k)).stopSource old
  | none => r

def retireDrain (r : Relay) (k : Key) : Relay :=
  match r.registry.drains.get? k with
  | some old => (r.setRegistry (r.withoutDrain k)).stopDrain old
  | none => r

def registerSource (r : Relay) (k : Key) (x : Source) : Relay :=
  r.setRegistry { r.registry with sources := r.registry.sources.insert k x }

def registerDrain (r : Relay) (k : Key) (d : Drain) : Relay :=
  r.setRegistry { r.registry with drains := r.registry.drains.insert k d }

/-! Reporters -/

inductive Alike : Option Task → Option Task → Prop
  | same (t? : Option Task) : Alike t? t?
  | reporters (n n' : Nat) (aborted aborted' : Bool) (next next' : Nat) (stage stage' : Reporter) :
      Alike (some (.reporter n aborted next stage)) (some (.reporter n' aborted' next' stage'))

variable {r : Relay} {me n : Nat} {k : Key}

theorem abortReporter_eq (r : Relay) (p : Pool) :
    r.abortReporter p = { r with tasks := (r.abortReporter p).tasks } := by
  rw [abortReporter]
  split <;> rfl

theorem abortReporter_alike (r : Relay) (p : Pool) (w : Nat) :
    Alike (r.tasks.get? w) ((r.abortReporter p).tasks.get? w) := by
  rw [abortReporter]
  split
  · rename_i t n aborted next stage ht
    obtain ⟨m, -, hm⟩ := Option.bind_eq_some_iff.mp ht
    obtain ⟨u, hu, he⟩ := Option.map_eq_some_iff.mp hm
    obtain ⟨rfl, rfl⟩ := Prod.mk.inj he
    simp only [setTask, Dict.get?_insert]
    split
    · rename_i hw
      rw [hw, hu]
      exact .reporters ..
    · exact .same _
  · exact .same _

theorem Alike.eq_of_ne {t? : Option Task} {t : Task} (h : Alike t? (some t))
    (ht : ∀ n aborted next stage, t ≠ .reporter n aborted next stage) : t? = some t := by
  cases h with
  | same => rfl
  | reporters => exact absurd rfl (ht _ _ _ _)

theorem Alike.kept {t : Task} {u? : Option Task} (h : Alike (some t) u?)
    (ht : ∀ n aborted next stage, t ≠ .reporter n aborted next stage) : u? = some t := by
  cases h with
  | same => rfl
  | reporters => exact absurd rfl (ht _ _ _ _)

theorem Alike.none_iff {t? u? : Option Task} (h : Alike t? u?) : t? = none ↔ u? = none := by
  cases h <;> simp

/-! Spawning -/

theorem spawnAll_eq (r : Relay) (tasks : List Task) :
    r.spawnAll tasks = { r with tasks := (r.spawnAll tasks).tasks, fresh := r.fresh + tasks.length } := by
  induction tasks generalizing r with
  | nil => rfl
  | cons t rest ih =>
    have hs : r.spawnAll (t :: rest) = (r.spawn t).spawnAll rest := rfl
    rw [hs, ih]
    simp only [spawn, setTask, List.length_cons]
    congr 1
    omega

theorem spawnAll_congr {r r' : Relay} (ht : r'.tasks = r.tasks) (hf : r'.fresh = r.fresh) (tasks : List Task) :
    (r'.spawnAll tasks).tasks = (r.spawnAll tasks).tasks := by
  induction tasks generalizing r r' with
  | nil => exact ht
  | cons t rest ih =>
    have hts : (r'.spawn t).tasks = (r.spawn t).tasks := by simp only [spawn, setTask, ht, hf]
    have hfs : (r'.spawn t).fresh = (r.spawn t).fresh := by simp only [spawn, setTask, hf]
    exact ih hts hfs

theorem get?_spawnAll (r : Relay) (t : Task) (size w : Nat) :
    (r.spawnAll (List.replicate size t)).tasks.get? w =
      if w ∈ List.range' r.fresh size then some t else r.tasks.get? w := by
  induction size generalizing r with
  | zero => rfl
  | succ size ih =>
    have hs : r.spawnAll (List.replicate (size + 1) t) = (r.spawn t).spawnAll (List.replicate size t) := rfl
    rw [hs, ih]
    simp only [spawn, setTask, Dict.get?_insert, List.mem_range'_1]
    by_cases h : w = r.fresh
    · subst h
      simp
    · rw [if_neg h]
      congr 1
      rw [eq_iff_iff]
      omega

/-! Parts -/

theorem stopDrain_pool {p : Pool} (hp : r.pools.get? n = some p) (hs : p.stopped = false) :
    r.stopDrain (.pool n) =
      { r with
        pools := r.pools.insert n { p with stopped := true, workers := [], reporter := none }
        tasks := (r.abortReporter p).tasks.insert r.fresh (.retirement p.sink p.workers)
        fresh := r.fresh + 1
        journal := .stopped (.pool n) :: r.journal } := by
  simp only [stopDrain, hp, hs, Bool.false_eq_true, if_false]
  rw [abortReporter_eq]
  rfl

theorem closeDrain_pool {p : Pool} (hp : r.pools.get? n = some p) :
    r.closeDrain (.pool n) =
      ({ r with
          pools := r.pools.insert n { p with workers := [], reporter := none }
          tasks := (r.abortReporter p).tasks
          journal := .closed (.pool n) :: r.journal },
        [.await p.workers, .closeSink p.sink]) := by
  simp only [closeDrain, hp]
  rw [abortReporter_eq]
  rfl

theorem closeDrain_alike (r : Relay) (d : Drain) (w : Nat) :
    Alike (r.tasks.get? w) ((r.closeDrain d).1.tasks.get? w) := by
  cases d with
  | probe n keeps => cases keeps <;> exact .same _
  | pool n =>
    cases hp : r.pools.get? n with
    | none =>
      simp only [closeDrain, hp]
      exact .same _
    | some p =>
      rw [closeDrain_pool hp]
      exact abortReporter_alike r p w

theorem closeDrain_probe (r : Relay) (n : Nat) (keeps : Bool) :
    r.closeDrain (.probe n keeps) =
      ({ r with
          probes := if keeps then r.probes else r.probes.erase n
          journal := .closed (.probe n) :: r.journal }, []) := by
  cases keeps <;> rfl

def crew (r : Relay) (p : Pool) : List Nat := List.range' r.fresh p.size

def manned (r : Relay) (p : Pool) : Pool :=
  { p with
    workers := p.workers ++ r.crew p
    reporter := if p.reportEvery.isSome then some (r.fresh + p.size) else p.reporter }

def mustered (r : Relay) (n c : Nat) (p : Pool) : Dict Nat Task :=
  let workers := (r.spawnAll (List.replicate p.size (.worker n c .idle))).tasks
  if p.reportEvery.isSome then workers.insert (r.fresh + p.size) (.reporter n false r.clock .sleeping) else workers

theorem get?_mustered (r : Relay) (n c : Nat) (p : Pool) (w : Nat) :
    (r.mustered n c p).get? w =
      if w ∈ r.crew p then some (.worker n c .idle)
      else if p.reportEvery.isSome ∧ w = r.fresh + p.size then some (.reporter n false r.clock .sleeping)
      else r.tasks.get? w := by
  have hn : r.fresh + p.size ∉ r.crew p := by simp [crew]
  have hs := get?_spawnAll r (.worker n c .idle) p.size w
  rw [mustered]
  by_cases hr : p.reportEvery.isSome = true
  · rw [if_pos hr, Dict.get?_insert]
    by_cases hw : w = r.fresh + p.size
    · rw [hw, if_pos rfl, if_neg hn, if_pos ⟨hr, rfl⟩]
    · simp only [hw, and_false, if_false, hs]
      rfl
  · rw [if_neg hr, hs, if_neg fun h : _ ∧ _ => hr h.1]
    rfl

theorem startDrain_pool {p : Pool} (c : Nat) (hp : r.pools.get? n = some p) : r.startDrain c (.pool n) =
    { r with
      pools := r.pools.insert n (r.manned p)
      tasks := r.mustered n c p
      fresh := r.fresh + p.size + p.reportEvery.isSome.toNat
      journal := .started (.pool n) :: r.journal } := by
  simp only [startDrain, hp]
  rw [spawnAll_eq, @spawnAll_congr r ((r.record (.started (.pool n))).setPool n _) rfl rfl]
  cases hr : p.reportEvery with
  | none => simp [startReporter, hr, record, setPool, manned, crew, mustered]
  | some every =>
    simp [startReporter, hr, record, setPool, spawn, setTask, manned, crew, mustered, Dict.insert_insert]

/-! The whole -/

theorem startDrain_probe (r : Relay) (n : Nat) (keeps : Bool) (c : Nat) : r.startDrain c (.probe n keeps) =
    { r with probes := r.probes.insert n c, journal := .started (.probe n) :: r.journal } := rfl

theorem setRegistry_stopDrain (r : Relay) (registry : Registry) (d : Drain) :
    (r.stopDrain d).setRegistry registry = (r.setRegistry registry).stopDrain d := by
  cases d with
  | probe n keeps => rfl
  | pool n =>
    cases hp : r.pools.get? n with
    | none => simp only [stopDrain, setRegistry, hp]
    | some p =>
      cases hs : p.stopped with
      | true => simp [stopDrain, setRegistry, hp, hs]
      | false =>
        rw [stopDrain_pool hp hs, @stopDrain_pool (r.setRegistry registry) n p hp hs]
        have ha : ((r.setRegistry registry).abortReporter p).tasks = (r.abortReporter p).tasks := by
          simp only [abortReporter, setRegistry]
          split <;> rfl
        rw [ha]
        rfl

theorem setRegistry_startDrain (r : Relay) (registry : Registry) (c : Nat) (d : Drain) :
    (r.startDrain c d).setRegistry registry = (r.setRegistry registry).startDrain c d := by
  cases d with
  | probe n keeps => rfl
  | pool n =>
    cases hp : r.pools.get? n with
    | none => simp only [startDrain, setRegistry, hp]
    | some p =>
      rw [startDrain_pool c hp, @startDrain_pool (r.setRegistry registry) n p c hp]
      have hm : (r.setRegistry registry).mustered n c p = r.mustered n c p := by
        rw [mustered]
        rw [@spawnAll_congr r (r.setRegistry registry) rfl rfl]
        rfl
      rw [hm]
      rfl

theorem stopDrain_registry (r : Relay) (d : Drain) : (r.stopDrain d).registry = r.registry :=
  (congrArg Relay.registry (setRegistry_stopDrain r r.registry d)).symm

theorem startDrain_registry (r : Relay) (c : Nat) (d : Drain) : (r.startDrain c d).registry = r.registry :=
  (congrArg Relay.registry (setRegistry_startDrain r r.registry c d)).symm

theorem openChannel_tasks (r : Relay) (k : Key) (size : Nat) : (r.openChannel k size).1.tasks = r.tasks := by
  rw [openChannel]
  split <;> rfl

theorem installDrain_eq (r : Relay) (k : Key) (d : Drain) (size : Nat) : r.installDrain k d size =
    (((r.openChannel k size).1.retireDrain k).startDrain (r.openChannel k size).2 d).registerDrain k d := by
  rw [installDrain]
  generalize r.openChannel k size = opened
  obtain ⟨r, c⟩ := opened
  cases ho : r.registry.drains.get? k with
  | none =>
    simp only [retireDrain, ho]
    rfl
  | some old =>
    simp only [retireDrain, ho]
    rw [← setRegistry_stopDrain, ← setRegistry_startDrain]
    simp only [registerDrain, setRegistry, startDrain_registry, stopDrain_registry, withoutDrain,
      Dict.erase_insert]

/-! Discoveries -/

def starting (r : Relay) (n : Nat) (s : Scout) : Task :=
  if s.spec.enabled then .loop n r.clock .resting else .announcement n

theorem stopSource_scout {s : Scout} (hs : r.scouts.get? n = some s) (h : s.stopped = false) :
    r.stopSource (.scout n) =
      { r with
        scouts := r.scouts.insert n { s with stopped := true }
        journal := .stopped (.scout n) :: r.journal } := by
  simp [stopSource, hs, h, setScout, record]

theorem startSource_scout {s : Scout} (hs : r.scouts.get? n = some s) : ∃ s', s'.stopped = s.stopped ∧
    r.startSource (.scout n) =
      { r with
        scouts := r.scouts.insert n s'
        tasks := r.tasks.insert r.fresh (r.starting n s)
        fresh := r.fresh + 1
        journal := .started (.scout n) :: r.journal } := by
  simp only [startSource, hs, starting]
  split
  · refine ⟨_, ?_, rfl⟩
    rfl
  · refine ⟨_, ?_, rfl⟩
    rfl

theorem setRegistry_stopSource (r : Relay) (registry : Registry) (x : Source) :
    (r.stopSource x).setRegistry registry = (r.setRegistry registry).stopSource x := by
  cases x with
  | probe n collectors => rfl
  | scout n =>
    simp only [stopSource, setRegistry]
    split
    · split <;> rfl
    · rfl

theorem setRegistry_startSource (r : Relay) (registry : Registry) (x : Source) :
    (r.startSource x).setRegistry registry = (r.setRegistry registry).startSource x := by
  cases x with
  | probe n collectors => rfl
  | scout n =>
    simp only [startSource, setRegistry]
    split
    · rfl
    · split <;> rfl

theorem stopSource_tasks (r : Relay) (x : Source) : (r.stopSource x).tasks = r.tasks := by
  simp only [stopSource]
  split
  · rfl
  · split
    · split <;> rfl
    · rfl

theorem stopSource_registry (r : Relay) (x : Source) : (r.stopSource x).registry = r.registry :=
  (congrArg Relay.registry (setRegistry_stopSource r r.registry x)).symm

theorem startSource_registry (r : Relay) (x : Source) : (r.startSource x).registry = r.registry :=
  (congrArg Relay.registry (setRegistry_startSource r r.registry x)).symm

theorem installSource_eq (r : Relay) (k : Key) (x : Source) :
    r.installSource k x = ((r.retireSource k).startSource x).registerSource k x := by
  rw [installSource]
  cases ho : r.registry.sources.get? k with
  | none =>
    simp only [retireSource, ho]
    rfl
  | some old =>
    simp only [retireSource, ho]
    rw [← setRegistry_stopSource, ← setRegistry_startSource]
    simp only [registerSource, setRegistry, startSource_registry, stopSource_registry, withoutSource,
      Dict.erase_insert]

end ScrapeRelay.Relay
