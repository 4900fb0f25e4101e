import ScrapeRelay.Proofs.Relay.Lines

/-!
The registry as its history tells it. What is registered under a key is what was entered there last and not
struck since; a channel has the room that the first pool asked for since its key was struck. Each member was
started once, a replaced one was stopped once before its successor was started, and a deleted pool was closed once.
-/

namespace ScrapeRelay.Relay

/-- What was entered and struck, the latest first. -/
inductive History : List Entry → Relay → Prop
  | start (inventory : Cluster.Inventory) (network : Network) (every : Option Nat) :
      History [] (start inventory network every)
  | move {es : List Entry} {r s : Relay} (m : Move) (h : History es r) (hm : r.move m = some s) :
      History ((r.entered? m).toList ++ es) s

def sourceAt (k : Key) : List Entry → Option Source
  | [] => none
  | .source k' x :: es => if k = k' then some x else sourceAt k es
  | .noSource k' :: es => if k = k' then none else sourceAt k es
  | _ :: es => sourceAt k es

def drainAt (k : Key) : List Entry → Option Drain
  | [] => none
  | .drain k' d _ _ :: es => if k = k' then some d else drainAt k es
  | .noDrain k' :: es => if k = k' then none else drainAt k es
  | _ :: es => drainAt k es

/-- The room that the first pool asked for since the key was struck. -/
def roomAt (k : Key) : List Entry → Option Nat
  | [] => none
  | .drain k' _ room _ :: es => if k = k' then some ((roomAt k es).getD room) else roomAt k es
  | .noDrain k' :: es => if k = k' then none else roomAt k es
  | _ :: es => roomAt k es

/-- The number of workers that came since the key was struck. -/
def staffAt (k : Key) : List Entry → Nat
  | [] => 0
  | .drain k' _ _ staff :: es => if k = k' then staff + staffAt k es else staffAt k es
  | .noDrain k' :: es => if k = k' then 0 else staffAt k es
  | _ :: es => staffAt k es

def Entry.member? : Entry → Option Member
  | .source _ x => some x.member
  | .drain _ d _ _ => some d.member
  | _ => none

variable {es before : List Entry} {r s : Relay} {e : Entry} {m : Move} {k : Key} {c room most : Nat}

theorem staffAt_of_roomless (h : roomAt k es = none) : staffAt k es = 0 := by
  induction es with
  | nil => rfl
  | cons e rest ih => cases e <;> simp only [roomAt, staffAt] at h ⊢ <;> grind

namespace History

theorem reachable (h : History es r) : Reachable r := by
  induction h with
  | start inventory network every => exact ⟨inventory, network, every, .same⟩
  | move m _ hm ih => exact ih.later (.after m .same hm)

theorem sources (h : History es r) (k : Key) : r.registry.sources.get? k = sourceAt k es := by
  induction h with
  | start => rfl
  | @move es r s m h hm ih =>
    rw [move_registry h.reachable.numbered hm]
    cases he : r.entered? m with
    | none => exact ih
    | some e =>
      cases e <;> simp only [Option.elim_some, Registry.enter, Option.toList_some, List.singleton_append, sourceAt,
        Dict.get?_insert, Dict.get?_erase, ih]

theorem drains (h : History es r) (k : Key) : r.registry.drains.get? k = drainAt k es := by
  induction h with
  | start => rfl
  | @move es r s m h hm ih =>
    rw [move_registry h.reachable.numbered hm]
    cases he : r.entered? m with
    | none => exact ih
    | some e =>
      cases e <;> simp only [Option.elim_some, Registry.enter, Option.toList_some, List.singleton_append, drainAt,
        Dict.get?_insert, Dict.get?_erase, ih]

theorem rooms (h : History es r) (k : Key) : (roomAt k es).isSome = (r.registry.channels.get? k).isSome := by
  rw [h.reachable.paired, h.drains]
  clear h
  induction es with
  | nil => rfl
  | cons e rest ih => cases e <;> simp only [roomAt, drainAt] <;> grind

end History

theorem Attended.move (h : Attended r c room most) (hn : Numbered r) (hm : r.move m = some s)
    (hp : ∀ k spec size accepts every, m ≠ .addPool k spec size accepts every) : Attended s c room most := by
  by_cases ht : ∃ me, m = .turn me
  · obtain ⟨me, rfl⟩ := ht
    exact h.step hn hm
  · refine h.quiet hn hm (fun me he => ht ⟨me, he⟩) (Nat.le_refl _) fun ws hnd hws => ?_
    apply h.staff ws hnd
    intro w hw
    obtain ⟨n, x, hx⟩ := hws w hw
    exact ⟨n, move_worker hn hm hp hx⟩

theorem Attended.enters {d : Drain} {room' staff : Nat} (h : Attended r c room most) (hr : Reachable r)
    (hm : r.move m = some s) (he : r.entered? m = some (.drain k d room' staff)) :
    Attended s c room (if r.registry.channels.get? k = some c then staff + most else most) := by
  rcases entered?_drain he with ⟨spec, accepts, every, rfl, -, rfl⟩ | ⟨keeps, rfl, -, rfl⟩
  · exact h.addPool hr.numbered hr.stage hm
  · rw [Nat.zero_add, ite_self]
    exact h.move hr.numbered hm (by simp)

theorem History.attended (h : History es r) (k : Key) (c room : Nat) (hc : r.registry.channels.get? k = some c)
    (hroom : roomAt k es = some room) : Attended r c (max 1 room) (staffAt k es) := by
  induction h generalizing k c room with
  | start => simp [Relay.start, Registry.empty] at hc
  | @move es r s m h hm ih =>
    have hr := h.reachable
    rw [move_registry hr.numbered hm] at hc
    -- the entry of a move that adds a pool says so
    have kept (hne : ∀ k d room staff, r.entered? m ≠ some (.drain k d room staff)) {c room most : Nat}
        (h : Attended r c room most) : Attended s c room most := by
      apply h.move hr.numbered hm
      rintro k spec size accepts every rfl
      exact hne _ _ _ _ rfl
    cases he : r.entered? m with
    | none =>
      rw [he] at hc hroom
      exact kept (by simp [he]) (ih k c room hc hroom)
    | some e =>
      rw [he] at hc hroom
      simp only [Option.elim_some, Option.toList_some, List.singleton_append] at hc hroom ⊢
      cases e with
      | source k' x | noSource k' => exact kept (by simp [he]) (ih k c room hc hroom)
      | noDrain k' =>
        simp only [Registry.enter, Dict.get?_erase, roomAt, staffAt] at hc hroom ⊢
        split at hc
        · simp at hc
        · rename_i hk
          rw [if_neg hk] at hroom ⊢
          exact kept (by simp [he]) (ih k c room hc hroom)
      | drain k' d room' staff =>
        by_cases hk : k = k'
        · subst hk
          simp only [Registry.enter, withChannel_same, roomAt, staffAt, if_true] at hc hroom ⊢
          cases hkc : r.registry.channels.get? k with
          | none =>
            have hless : roomAt k es = none := by simpa [hkc] using h.rooms k
            rw [hkc] at hc
            rw [hless] at hroom
            obtain rfl : r.nextChannel m = c := Option.some.inj hc
            obtain rfl : room' = room := Option.some.inj hroom
            rw [staffAt_of_roomless hless]
            exact .first hr.numbered hr.stage hm he hkc
          | some i =>
            rw [hkc] at hc
            obtain rfl : i = c := Option.some.inj hc
            obtain ⟨room₀, hroom₀⟩ := Option.isSome_iff_exists.mp ((h.rooms k).trans (by rw [hkc]; rfl))
            rw [hroom₀] at hroom
            obtain rfl : room₀ = room := Option.some.inj hroom
            have := (ih k i room₀ hkc hroom₀).enters hr hm he
            rwa [if_pos hkc] at this
        · simp only [Registry.enter, withChannel_other hk, roomAt, staffAt, if_neg hk] at hc hroom ⊢
          have := (ih k c room hc hroom).enters hr hm he
          rwa [if_neg fun hkc => hk (hr.distinct k k' c hc hkc)] at this

/-! Lives in the history -/

theorem History.since {P : Entry → List Entry → Relay → Prop}
    (hnew : ∀ es r m s e, History es r → r.move m = some s → r.entered? m = some e → P e es s)
    (hkeep : ∀ e before r m s, Reachable r → P e before r → r.move m = some s → P e before s)
    (h : History es r) (he : e :: before <:+ es) : P e before r := by
  induction h with
  | start => simp at he
  | @move es r s m h hm ih =>
    cases hentry : r.entered? m with
    | none =>
      rw [hentry] at he
      exact hkeep e before r m s h.reachable (ih he) hm
    | some e' =>
      rw [hentry, Option.toList_some, List.singleton_append, List.suffix_cons_iff] at he
      rcases he with he | he
      · obtain ⟨rfl, rfl⟩ := List.cons.inj he
        exact hnew before r m s e h hm hentry
      · exact hkeep e before r m s h.reachable (ih he) hm

theorem Stage.of_started {m : Member} (h : Stage r m) (he : .started m ∈ r.journal) :
    (r.life m).started = 1 := by
  have hpos : 0 < (r.life m).started := List.count_pos_iff.mpr he
  cases h with
  | unborn _ hl => simp [hl] at hpos
  | owned _ _ hl | stopped _ hl | closed _ hl => rw [hl]

theorem Stage.of_stopped {m : Member} (h : Stage r m) (he : .stopped m ∈ r.journal) :
    r.life m = ⟨1, 1, 0⟩ := by
  have hpos : 0 < (r.life m).stopped := List.count_pos_iff.mpr he
  cases h with
  | unborn _ hl | owned _ _ hl | closed _ hl => simp [hl] at hpos
  | stopped _ hl => exact hl

theorem History.started (h : History es r) (he : e ∈ es) {m : Member} (hm : e.member? = some m) :
    (r.life m).started = 1 := by
  obtain ⟨after, before, rfl⟩ := List.append_of_mem he
  have told := h.since (P := fun e _ r => ∀ m, e.member? = some m → .started m ∈ r.journal) ?_ ?_
    (List.suffix_append _ _)
  · exact (h.reachable.stage m).of_started (told m hm)
  · intro es r mv s e h hmv hentry m hm
    have hr := h.reachable
    cases e with
    | source k x =>
      rw [entered?_source_journal hr.numbered hr.stage hmv hentry, ← Option.some.inj hm]
      exact List.mem_cons_self
    | drain k d room staff =>
      rw [entered?_drain_journal hr.numbered hr.stage hmv hentry, ← Option.some.inj hm]
      exact List.mem_cons_self
    | _ => simp [Entry.member?] at hm
  · intro e before r mv s hr hp hmv m hm
    obtain ⟨events, hj⟩ := move_journal hr.numbered hmv
    rw [hj]
    exact List.mem_append_right _ (hp m hm)

/-- A member was stopped and its successor started right after. -/
def Succeeded (r : Relay) (old new : Member) : Prop :=
  ∃ later earlier, r.journal = later ++ .started new :: .stopped old :: earlier

theorem Succeeded.move {old new : Member} (h : Succeeded r old new) (hn : Numbered r) (hm : r.move m = some s) :
    Succeeded s old new := by
  obtain ⟨later, earlier, hj⟩ := h
  obtain ⟨events, hj'⟩ := move_journal hn hm
  exact ⟨events ++ later, earlier, by rw [hj', hj, List.append_assoc]⟩

theorem Succeeded.life {old new : Member} (h : Succeeded r old new) (hst : Stage r old) :
    r.life old = ⟨1, 1, 0⟩ := by
  obtain ⟨later, earlier, hj⟩ := h
  apply hst.of_stopped
  simp [hj]

theorem History.succeeded_source {x old : Source} (h : History es r) (he : .source k x :: before <:+ es)
    (ho : sourceAt k before = some old) : Succeeded r old.member x.member := by
  have hp := h.since (P := fun e before r => ∀ k x old, e = .source k x → sourceAt k before = some old →
    Succeeded r old.member x.member) ?_ ?_ he
  · exact hp k x old rfl ho
  · rintro es r m s e h hm hentry k x old rfl ho
    have hj := entered?_source_journal h.reachable.numbered h.reachable.stage hm hentry
    rw [h.sources, ho] at hj
    exact ⟨[], r.journal, hj⟩
  · intro e before r m s hr hp hm k x old he ho
    exact (hp k x old he ho).move hr.numbered hm

theorem History.succeeded_drain {d old : Drain} {room staff : Nat} (h : History es r)
    (he : .drain k d room staff :: before <:+ es) (ho : drainAt k before = some old) :
    Succeeded r old.member d.member := by
  have hp := h.since (P := fun e before r => ∀ k d room staff old, e = .drain k d room staff →
    drainAt k before = some old → Succeeded r old.member d.member) ?_ ?_ he
  · exact hp k d room staff old rfl ho
  · rintro es r m s e h hm hentry k d room staff old rfl ho
    have hj := entered?_drain_journal h.reachable.numbered h.reachable.stage hm hentry
    rw [h.drains, ho] at hj
    exact ⟨[], r.journal, hj⟩
  · intro e before r m s hr hp hm k d room staff old he ho
    exact (hp k d room staff old he ho).move hr.numbered hm

def AboutTo (r : Relay) (a : Act) : Prop :=
  ∃ me rest tolerant, r.tasks.get? me = some (.call (a :: rest) tolerant)

theorem AboutTo.pending {a : Act} {m : Member} (h : AboutTo r a) (ha : a.member? = some m) :
    ∃ me, m ∈ r.pendingOf me := by
  obtain ⟨me, rest, tolerant, ht⟩ := h
  exact ⟨me, by simp [pendingOf_eq ht, Task.pending, Task.acts, ha]⟩

theorem Stage.gone_of_life {m : Member} {l : Life} (h : Stage r m) (hl : r.life m = l) (hs : l.started = 1)
    (hne : l ≠ ⟨1, 0, 0⟩) : Gone r m := by
  cases h with
  | unborn _ h =>
    rw [← hl, h] at hs
    simp at hs
  | owned _ _ h => exact absurd (hl.symm.trans h) hne
  | stopped ho _ | closed ho _ => exact ⟨ho, hl ▸ hs⟩

theorem end_kept {a : Act} {mem : Member} {l : Life} (hr : Reachable r) (hm : r.move m = some s)
    (hs : l.started = 1) (hne : l ≠ ⟨1, 0, 0⟩)
    (hends : ∀ me rest tolerant, r.tasks.get? me = some (.call (a :: rest) tolerant) →
      r.step me = some s → s.life mem = l)
    (h : AboutTo r a ∨ r.life mem = l) : AboutTo s a ∨ s.life mem = l := by
  rcases h with ⟨me, rest, tolerant, ht⟩ | hl
  · by_cases htu : m = .turn me
    · subst htu
      exact .inr (hends me rest tolerant ht hm)
    · exact .inl ⟨me, rest, tolerant, task_kept hr.numbered hm ht htu (by simp)⟩
  · have hg := (hr.stage mem).gone_of_life hl hs hne
    exact .inr ((hg.passage (move_passage hr.numbered hr.stage hm)).2.1.trans hl)

theorem stops_life {x : Source} {me : Nat} {rest : List Act} {tolerant : Bool} (hr : Reachable r)
    (ht : r.tasks.get? me = some (.call (.stopSource x :: rest) tolerant)) (hm : r.step me = some s) :
    s.life x.member = ⟨1, 1, 0⟩ := by
  have hto : ∀ a ∈ rest, a.isPlain = true := (hr.numbered.task me _ ht).1
  have he := stopsSource_passes (hr.stage _) ht hto
  have hl := (hr.stage x.member).life ((he.had _).mpr rfl)
  simp only [step, ht, Option.bind_some, turn, callStep, act, Option.map_some] at hm
  obtain rfl := Option.some.inj hm
  apply (he.life _).trans
  rw [lifeIn_stopped]
  exact congrArg (fun l : Life => { l with stopped := l.stopped + 1 }) hl

theorem closes_life {d : Drain} {me : Nat} {rest : List Act} {tolerant : Bool} (hr : Reachable r)
    (ht : r.tasks.get? me = some (.call (.closeDrain d :: rest) tolerant)) (hm : r.step me = some s) :
    s.life d.member = ⟨1, 0, 1⟩ := by
  have hto : ∀ a ∈ rest, a.isPlain = true := (hr.numbered.task me _ ht).1
  have he := closesDrain_passes hr.numbered (hr.stage _) ht hto
  have hl := (hr.stage d.member).life ((he.had _).mpr rfl)
  simp only [step, ht, Option.bind_some, turn, callStep, act, Option.map_some] at hm
  obtain rfl := Option.some.inj hm
  apply (he.life _).trans
  rw [lifeIn_closed]
  exact congrArg (fun l : Life => { l with closed := l.closed + 1 }) hl

theorem History.struck_source {old : Source} (h : History es r) (he : .noSource k :: before <:+ es)
    (ho : sourceAt k before = some old) : AboutTo r (.stopSource old) ∨ r.life old.member = ⟨1, 1, 0⟩ := by
  have hp := h.since (P := fun e before r => ∀ k old, e = .noSource k → sourceAt k before = some old →
    AboutTo r (.stopSource old) ∨ r.life old.member = ⟨1, 1, 0⟩) ?_ ?_ he
  · exact hp k old rfl ho
  · rintro es r m s e h hm hentry k old rfl ho
    exact .inl (entered?_noSource hm hentry ((h.sources k).trans ho))
  · intro e before r m s hr hp hm k old he ho
    exact end_kept hr hm rfl (by simp) (fun _ _ _ => stops_life hr) (hp k old he ho)

theorem History.struck_drain {old : Drain} (h : History es r) (he : .noDrain k :: before <:+ es)
    (ho : drainAt k before = some old) : AboutTo r (.closeDrain old) ∨ r.life old.member = ⟨1, 0, 1⟩ := by
  have hp := h.since (P := fun e before r => ∀ k old, e = .noDrain k → drainAt k before = some old →
    AboutTo r (.closeDrain old) ∨ r.life old.member = ⟨1, 0, 1⟩) ?_ ?_ he
  · exact hp k old rfl ho
  · rintro es r m s e h hm hentry k old rfl ho
    exact .inl (entered?_noDrain hm hentry ((h.drains k).trans ho))
  · intro e before r m s hr hp hm k old he ho
    exact end_kept hr hm rfl (by simp) (fun _ _ _ => closes_life hr) (hp k old he ho)

theorem Stage.live_iff {m : Member} (h : Stage r m) : r.life m = ⟨1, 0, 0⟩ ↔ ∃ o, Owns r o m := by
  refine ⟨fun hl => ?_, fun ⟨o, ho⟩ => h.life ho⟩
  cases h with
  | unborn _ h | stopped _ h | closed _ h =>
    rw [hl] at h
    simp at h
  | owned o ho => exact ⟨o, (ho o).mpr rfl⟩

theorem History.live_iff (h : History es r) (hq : ∀ me, r.pendingOf me = []) (m : Member) :
    r.life m = ⟨1, 0, 0⟩ ↔
      (∃ k x, sourceAt k es = some x ∧ x.member = m) ∨ ∃ k d, drainAt k es = some d ∧ d.member = m := by
  rw [(h.reachable.stage m).live_iff]
  constructor
  · rintro ⟨o, ho⟩
    cases o with
    | source k =>
      obtain ⟨x, hx, hm⟩ := Option.map_eq_some_iff.mp ho
      exact .inl ⟨k, x, (h.sources k).symm.trans hx, hm⟩
    | drain k =>
      obtain ⟨d, hd, hm⟩ := Option.map_eq_some_iff.mp ho
      exact .inr ⟨k, d, (h.drains k).symm.trans hd, hm⟩
    | task me =>
      have ho : m ∈ r.pendingOf me := ho
      simp [hq me] at ho
  · rintro (⟨k, x, hx, hm⟩ | ⟨k, d, hd, hm⟩)
    · exact ⟨.source k, Option.map_eq_some_iff.mpr ⟨x, (h.sources k).trans hx, hm⟩⟩
    · exact ⟨.drain k, Option.map_eq_some_iff.mpr ⟨d, (h.drains k).trans hd, hm⟩⟩

/-! The whole -/

theorem removeSource_absent {me : Nat} (ht : r.tasks.get? me = some (.call [.removeSource k] false))
    (hx : r.registry.sources.get? k = none) :
    r.step me = some (r.setTask me (.ended (.error (.notFound s!"discovery {k}")))) := by
  simp [step, ht, turn, callStep, act, removeSource, hx]

theorem removeDrain_absent {me : Nat} (ht : r.tasks.get? me = some (.call [.removeDrain k] false))
    (hd : r.registry.drains.get? k = none) :
    r.step me = some (r.setTask me (.ended (.error (.notFound s!"collector {k}")))) := by
  simp [step, ht, turn, callStep, act, removeDrain, hd]

theorem History.capacity (h : History es r) (k : Key) : r.capacity? k = (roomAt k es).map (max 1) := by
  have hroom := h.rooms k
  cases hc : r.registry.channels.get? k with
  | none =>
    rw [hc, Option.isSome_none, Option.isSome_eq_false_iff, Option.isNone_iff_eq_none] at hroom
    simp only [capacity?, hc, hroom, Option.map_none]
  | some c =>
    rw [hc, Option.isSome_some, Option.isSome_iff_exists] at hroom
    obtain ⟨room, hroom⟩ := hroom
    simp only [capacity?, hc, hroom, Option.map_some, (h.attended k c room hc hroom).capacity]

theorem History.bounded (h : History es r) {n : Nat} (hn : r.inFlight k = .ok n) :
    n ≤ max ((r.capacity? k).getD 0) (staffAt k es) := by
  cases hc : r.registry.channels.get? k with
  | none => simp [inFlight, hc] at hn
  | some c =>
    obtain ⟨room, hroom⟩ := Option.isSome_iff_exists.mp ((h.rooms k).trans (by rw [hc]; rfl))
    have hb := (h.attended k c room hc hroom).orderly.bound
    simp only [inFlight, hc, Except.ok.injEq, Channel.depth] at hn
    simp only [capacity?, hc, Option.map_some, Option.getD_some]
    omega

/-- What a registry does with the members that are entered and struck, in any order and with any other moves in
between. Members that a call has taken from the registry are left out where they are about to be stopped or
closed. -/
theorem History.lifecycle (h : History es r) :
    (∀ k, (r.registry.channels.get? k).isSome = (r.registry.drains.get? k).isSome) ∧
    (∀ k, r.capacity? k = (roomAt k es).map (max 1)) ∧
    (∀ k n, r.inFlight k = .ok n → n ≤ max ((r.capacity? k).getD 0) (staffAt k es)) ∧
    (∀ e ∈ es, ∀ m, e.member? = some m → (r.life m).started = 1) ∧
    ((∀ me, r.pendingOf me = []) → ∀ m, r.life m = ⟨1, 0, 0⟩ ↔
      (∃ k x, sourceAt k es = some x ∧ x.member = m) ∨ ∃ k d, drainAt k es = some d ∧ d.member = m) ∧
    (∀ k x before old, .source k x :: before <:+ es → sourceAt k before = some old →
      r.life old.member = ⟨1, 1, 0⟩ ∧ Succeeded r old.member x.member) ∧
    (∀ k d room staff before old, .drain k d room staff :: before <:+ es → drainAt k before = some old →
      r.life old.member = ⟨1, 1, 0⟩ ∧ Succeeded r old.member d.member) ∧
    ((∀ me, r.pendingOf me = []) → ∀ k before old, .noSource k :: before <:+ es →
      sourceAt k before = some old → r.life old.member = ⟨1, 1, 0⟩) ∧
    ((∀ me, r.pendingOf me = []) → ∀ k before old, .noDrain k :: before <:+ es →
      drainAt k before = some old → r.life old.member = ⟨1, 0, 1⟩) ∧
    (∀ k me, r.tasks.get? me = some (.call [.removeSource k] false) → sourceAt k es = none →
      r.step me = some (r.setTask me (.ended (.error (.notFound s!"discovery {k}"))))) ∧
    ∀ k me, r.tasks.get? me = some (.call [.removeDrain k] false) → drainAt k es = none →
      r.step me = some (r.setTask me (.ended (.error (.notFound s!"collector {k}")))) := by
  have hst := h.reachable.stage
  refine ⟨h.reachable.paired, h.capacity, fun k n => h.bounded, fun e he m => h.started he, h.live_iff,
    ?_, ?_, ?_, ?_, ?_, ?_⟩
  · intro k x before old he ho
    have hs := h.succeeded_source he ho
    exact ⟨hs.life (hst _), hs⟩
  · intro k d room staff before old he ho
    have hs := h.succeeded_drain he ho
    exact ⟨hs.life (hst _), hs⟩
  · intro hq k before old he ho
    apply (h.struck_source he ho).resolve_left
    intro hp
    obtain ⟨me, hm⟩ := hp.pending rfl
    simp [hq me] at hm
  · intro hq k before old he ho
    apply (h.struck_drain he ho).resolve_left
    intro hp
    obtain ⟨me, hm⟩ := hp.pending rfl
    simp [hq me] at hm
  · intro k me ht hk
    exact removeSource_absent ht ((h.sources k).trans hk)
  · intro k me ht hk
    exact removeDrain_absent ht ((h.drains k).trans hk)

def entries (r : Relay) : List Move → List Entry
  | [] => []
  | m :: rest => ((r.move m).map fun s => s.entries rest).getD [] ++ (r.entered? m).toList

theorem History.replay {ms : List Move} (h : History es r) (hr : r.replay ms = some s) :
    History (r.entries ms ++ es) s := by
  induction ms generalizing r es with
  | nil =>
    obtain rfl := Option.some.inj hr
    exact h
  | cons m rest ih =>
    obtain ⟨t, hm, ht⟩ := Option.bind_eq_some_iff.mp hr
    have := ih (.move m h hm) ht
    rwa [entries, hm, Option.map_some, Option.getD_some, List.append_assoc]

def removing : List Move :=
  let k : Key := ⟨"monitoring", "pool"⟩
  [.addPool k .standard 1 (fun _ => true) none, .addPool k .standard 5 (fun _ => true) none, .call (.removePool k),
    .turn 8, .turn 8]

theorem lifecycle_removing : ∃ r, (start .empty .silent none).replay removing = some r ∧
    r.life (.pool 1) = ⟨1, 1, 0⟩ ∧ r.life (.pool 5) = ⟨1, 0, 1⟩ := by
  have log : (start .empty .silent none).entries removing =
      [.noDrain ⟨"monitoring", "pool"⟩, .drain ⟨"monitoring", "pool"⟩ (.pool 5) 5 1,
        .drain ⟨"monitoring", "pool"⟩ (.pool 1) 1 1] := by decide +kernel
  have idle : ((start .empty .silent none).replay removing).map
      (fun r => r.tasks.values.all (·.pending.isEmpty)) = some true := by decide +kernel
  obtain ⟨r, hr, hidle⟩ := Option.map_eq_some_iff.mp idle
  have h := (History.start .empty .silent none).replay hr
  rw [log] at h
  obtain ⟨-, -, -, -, -, -, replaced, -, deleted, -⟩ := h.lifecycle
  refine ⟨r, hr, (replaced _ _ _ _ _ (.pool 1) (List.suffix_cons _ _) (by decide)).1,
    deleted ?_ _ _ (.pool 5) (List.suffix_refl _) (by decide)⟩
  intro me
  rw [pendingOf]
  cases ht : r.tasks.get? me with
  | none => rfl
  | some t => simpa using List.all_eq_true.mp hidle t (Dict.mem_values.mpr ⟨me, ht⟩)

def Task.isCall : Task → Bool
  | call .. => true
  | _ => false

/-- No call is under way. -/
def Between (r : Relay) : Prop := ∀ t ∈ r.tasks.values, t.isCall = false

/-- Two workers wait when two targets are sent, and the send has ended before they take their turns. -/
def crowding : List Move :=
  let k : Key := ⟨"monitoring", "pool"⟩
  let target (ip : String) : Target := { Target.ofAnnotations .empty "" with ip }
  [.addPool k { Collector.Spec.standard with workers := 2 } 1 (fun _ => true) none, .turn 3, .turn 4,
    .call (.send k [target "10.0.0.1", target "10.0.0.2"] none), .turn 5, .turn 5, .turn 5, .turn 5, .turn 5]

theorem depth_over_capacity : ¬ ∀ es r, History es r → r.Between →
    ∀ k n, r.inFlight k = .ok n → n ≤ (r.capacity? k).getD 0 := by
  intro h
  have facts : ((start .empty .silent none).replay crowding).map (fun r =>
      ((r.inFlight ⟨"monitoring", "pool"⟩).toOption, r.capacity? ⟨"monitoring", "pool"⟩,
        r.tasks.values.all fun t => !t.isCall)) = some (some 2, some 1, true) := by
    decide +kernel
  obtain ⟨r, hr, hf⟩ := Option.map_eq_some_iff.mp facts
  obtain ⟨hdepth, hf⟩ := Prod.mk.inj hf
  obtain ⟨hcap, hcalls⟩ := Prod.mk.inj hf
  have between : r.Between := by simpa [Between] using hcalls
  cases hi : r.inFlight ⟨"monitoring", "pool"⟩ with
  | error f => simp [hi, Except.toOption] at hdepth
  | ok n =>
    have hle := h _ r ((History.start .empty .silent none).replay hr) between _ n hi
    rw [hi] at hdepth
    obtain rfl : n = 2 := Option.some.inj hdepth
    rw [hcap] at hle
    simp at hle

end ScrapeRelay.Relay
