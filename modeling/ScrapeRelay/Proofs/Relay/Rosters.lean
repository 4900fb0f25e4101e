import ScrapeRelay.Proofs.Relay.Courses

/-!
Who works for a discovery. Its loop, or the task that says that it does not run, is written down in it when it
starts and stays so until a call takes these tasks over in order to wait for them; that call has stopped the
discovery before.
-/

namespace ScrapeRelay.Relay

/-- A discovery but for its lock. -/
structure Face where
  key : Key
  reports : Bool
  stopped : Bool
  staff : List Nat

def Scout.face (sc : Scout) : Face :=
  ⟨sc.key, sc.reports, sc.stopped, sc.loop.toList ++ sc.announcement.toList⟩

def face? (r : Relay) (n : Nat) : Option Face := (r.scouts.get? n).map Scout.face

structure Undisturbed (r s : Relay) : Prop where
  scouts : s.scouts = r.scouts
  board : s.board = r.board
  every : s.reportEvery = r.reportEvery

def Act.mark (n : Nat) : Act → Face → Face
  | .stopSource x, f => if x = .scout n then { f with stopped := true } else f
  | .joinSource x, f => if x = .scout n then { f with staff := [] } else f
  | _, f => f

def Task.mark (n : Nat) : Task → Face → Face
  | .call (a :: _) _, f => a.mark n f
  | _, f => f

def Move.sourceKey? : Move → Option Key
  | .addDiscovery k .. | .addProbeSource k .. => some k
  | _ => none

def retired (r : Relay) (m : Move) (n : Nat) (f : Face) : Face :=
  if m.sourceKey?.bind r.registry.sources.get? = some (.scout n) then { f with stopped := true } else f

def born? (r : Relay) : Move → Option Face
  | .addDiscovery k _ _ reports => some ⟨k, reports, false, [r.fresh + 1]⟩
  | _ => none

variable {r s : Relay} {me n c i w : Nat} {t t' : Task} {k : Key} {acts rest : List Act}
  {tolerant : Bool} {m : Move}
  {x : Source} {sc sc' : Scout}

theorem Undisturbed.refl (r : Relay) : Undisturbed r r := ⟨rfl, rfl, rfl⟩

theorem Undisturbed.trans {u : Relay} (h : Undisturbed r s) (hu : Undisturbed s u) : Undisturbed r u :=
  ⟨hu.scouts.trans h.scouts, hu.board.trans h.board, hu.every.trans h.every⟩

theorem face?_eq (h : s.scouts = r.scouts) (n : Nat) : s.face? n = r.face? n := by rw [face?, face?, h]

theorem face?_setScout (r : Relay) (i : Nat) (sc : Scout) (n : Nat) :
    (r.setScout i sc).face? n = if n = i then some sc.face else r.face? n := by
  simp only [face?, setScout, Dict.get?_insert]
  split <;> rfl

theorem face?_set (hs : r.scouts.get? i = some sc) (hf : sc'.face = sc.face) (n : Nat) :
    (r.setScout i sc').face? n = r.face? n := by
  rw [face?_setScout]
  split
  · rename_i hn
    rw [hn, face?, hs, Option.map_some, hf]
  · rfl

/-! Turns -/

theorem deliver_undisturbed {d : Delivery} {p : Delivery.Progress} (h : r.deliver me d = some (s, p)) :
    Undisturbed r s := by
  cases deliver_forwarded h <;> exact ⟨rfl, rfl, rfl⟩

theorem worked_undisturbed {p : Pool} {w : Worker} (h : Worked r me n c p w s t') : Undisturbed r s := by
  cases h with
  | takes hw inLine hs =>
    obtain ⟨-, rfl⟩ := take?_eq hs
    cases inLine <;> exact ⟨rfl, rfl, rfl⟩
  | waits => split <;> exact ⟨rfl, rfl, rfl⟩
  | leaves hw inLine => cases inLine <;> exact ⟨rfl, rfl, rfl⟩
  | scrapes | misses | ends => exact ⟨rfl, rfl, rfl⟩
  | ships =>
    rw [ship]
    split <;> exact ⟨rfl, rfl, rfl⟩

theorem closeDrain_undisturbed (r : Relay) (d : Drain) : Undisturbed r (r.closeDrain d).1 := by
  cases d with
  | probe n keeps =>
    rw [closeDrain_probe]
    exact ⟨rfl, rfl, rfl⟩
  | pool n =>
    cases hp : r.pools.get? n with
    | none =>
      simp only [closeDrain, hp]
      exact .refl r
    | some p =>
      rw [closeDrain_pool hp]
      exact ⟨rfl, rfl, rfl⟩

theorem passOn_face (hs : r.scouts.get? i = some sc) (n : Nat) : (r.passOn i sc).face? n = r.face? n := by
  rw [passOn]
  split
  · refine face?_set hs ?_ n
    rfl
  · refine face?_set hs ?_ n
    rfl

theorem cycle_face {x : Cycle} {p : Cycle.Progress} (hs : r.scouts.get? i = some sc)
    (h : r.cycle me i sc x = some (s, p)) (n : Nat) : s.face? n = r.face? n := by
  cases cycle_advanced h with
  | stays => rfl
  | asks =>
    rw [ask]
    split
    · refine face?_set hs ?_ n
      rfl
    · refine face?_set hs ?_ n
      rfl
  | delivers hd => exact face?_eq (deliver_undisturbed hd).scouts n
  | reports found tally =>
    have hw := Aside.writeStatus_scouts r sc (r.cycleStatus sc found tally)
    rw [passOn_face (hw ▸ hs), face?_eq hw]

theorem stopSource_face (r : Relay) (x : Source) (n : Nat) :
    (r.stopSource x).face? n =
      (r.face? n).map fun f => if x = .scout n then { f with stopped := true } else f := by
  cases x with
  | probe =>
    simp only [stopSource, reduceCtorEq, if_false, Option.map_id']
    rfl
  | scout i =>
    by_cases hi : i = n
    · subst hi
      simp only [stopSource, if_true]
      split
      · rename_i sc hs
        cases hst : sc.stopped with
        | true => simp [face?, hs, Scout.face, hst]
        | false => simp [face?, hs, Scout.face, setScout, record]
      · rename_i hs
        simp [face?, hs]
    · have hne : Source.scout i ≠ .scout n := fun h => hi (Source.scout.inj h)
      simp only [stopSource, if_neg hne, Option.map_id']
      split
      · split
        · rfl
        · exact (face?_setScout ..).trans (if_neg (Ne.symm hi))
      · rfl

theorem joinSource_face (r : Relay) (x : Source) (n : Nat) :
    (r.joinSource x).1.face? n = (r.face? n).map fun f => if x = .scout n then { f with staff := [] } else f := by
  cases x with
  | probe =>
    simp only [joinSource, reduceCtorEq, if_false, Option.map_id']
  | scout i =>
    by_cases hi : i = n
    · subst hi
      simp only [joinSource, if_true]
      split
      · rename_i sc hs
        simp [face?, hs, Scout.face, setScout]
      · rename_i hs
        simp [face?, hs]
    · have hne : Source.scout i ≠ .scout n := fun h => hi (Source.scout.inj h)
      simp only [joinSource, if_neg hne, Option.map_id']
      split
      · exact (face?_setScout ..).trans (if_neg (Ne.symm hi))
      · rfl

theorem Called.face (h : Called r me tolerant acts s t') (n : Nat) :
    s.face? n = (r.face? n).map ((Task.call acts tolerant).mark n) := by
  have same (hs : ∀ n, s.face? n = r.face? n) (ha : (Task.call acts tolerant).mark n = id) :
      s.face? n = (r.face? n).map ((Task.call acts tolerant).mark n) := by
    rw [ha, hs, Option.map_id_apply]
  cases h with
  | sends rest hd => exact same (face?_eq (deliver_undisturbed hd).scouts) rfl
  | cycles rest hn hc => exact same (cycle_face hn hc) rfl
  | stops x rest => exact stopSource_face r x n
  | joins x rest => exact joinSource_face r x n
  | forgets k rest => exact same (face?_eq (by split <;> rfl)) rfl
  | drops k rest => exact same (face?_eq (by split <;> rfl)) rfl
  | closes d rest => exact same (face?_eq (closeDrain_undisturbed r d).scouts) rfl
  | _ => exact same (face?_eq rfl) rfl

theorem Acted.face (h : Acted r me t s t') (n : Nat) : s.face? n = (r.face? n).map (t.mark n) := by
  have same (hs : ∀ n, s.face? n = r.face? n) (ha : t.mark n = id) : s.face? n = (r.face? n).map (t.mark n) := by
    rw [ha, hs, Option.map_id_apply]
  cases h with
  | works hp hw => exact same (face?_eq (worked_undisturbed hw).scouts) rfl
  | reports n aborted next k status =>
    refine same (face?_eq ?_) rfl
    unfold reportCollector
    dsimp only
    split <;> rfl
  | cycles due hn hc => exact same (cycle_face hn hc) rfl
  | announces hn => exact same (face?_eq (Aside.writeStatus_scouts ..)) rfl
  | calls h => exact h.face n
  | _ => exact same (face?_eq rfl) rfl

theorem step_face (hn : Numbered r) (hs : r.step me = some s) (n : Nat) :
    ∃ t, r.tasks.get? me = some t ∧ s.face? n = (r.face? n).map (t.mark n) := by
  obtain ⟨t, t', s', ht, ha, -, rfl⟩ := step_acted hn hs
  exact ⟨t, ht, ha.face n⟩

/-! Installs -/

theorem stopDrain_undisturbed (r : Relay) (d : Drain) : Undisturbed r (r.stopDrain d) := by
  cases d with
  | probe => exact ⟨rfl, rfl, rfl⟩
  | pool n =>
    cases hp : r.pools.get? n with
    | none =>
      simp only [stopDrain, hp]
      exact .refl r
    | some p =>
      cases hs : p.stopped with
      | true =>
        simp only [stopDrain, hp, hs, if_true]
        exact .refl r
      | false =>
        rw [stopDrain_pool hp hs]
        exact ⟨rfl, rfl, rfl⟩

theorem startDrain_undisturbed (r : Relay) (c : Nat) (d : Drain) : Undisturbed r (r.startDrain c d) := by
  cases d with
  | probe => exact ⟨rfl, rfl, rfl⟩
  | pool n =>
    cases hp : r.pools.get? n with
    | none =>
      simp only [startDrain, hp]
      exact .refl r
    | some p =>
      rw [startDrain_pool c hp]
      exact ⟨rfl, rfl, rfl⟩

theorem installDrain_undisturbed (r : Relay) (k : Key) (d : Drain) (size : Nat) :
    Undisturbed r (r.installDrain k d size) := by
  have ho : Undisturbed r (r.openChannel k size).1 := by
    rw [openChannel]
    split <;> exact ⟨rfl, rfl, rfl⟩
  have hret (r : Relay) : Undisturbed r (r.retireDrain k) := by
    rw [retireDrain]
    split
    · obtain ⟨hs, hb, he⟩ := stopDrain_undisturbed (r.setRegistry (r.withoutDrain k)) _
      exact ⟨hs, hb, he⟩
    · exact .refl r
  have h := (ho.trans (hret _)).trans (startDrain_undisturbed _ (r.openChannel k size).2 d)
  rw [installDrain_eq]
  exact ⟨h.scouts, h.board, h.every⟩

theorem retireSource_face (r : Relay) (k : Key) (n : Nat) : (r.retireSource k).face? n =
    (r.face? n).map fun f =>
      if r.registry.sources.get? k = some (.scout n) then { f with stopped := true } else f := by
  rw [retireSource]
  split
  · rename_i x hx
    rw [stopSource_face (r.setRegistry (r.withoutSource k)) x n, hx]
    simp only [Option.some.injEq]
    rfl
  · rename_i hx
    simp only [hx, reduceCtorEq, if_false, Option.map_id']

theorem startSource_face {f : Face} (hf : r.face? i = some f) (hidle : f.staff = []) (n : Nat) :
    (r.startSource (.scout i)).face? n = if n = i then some { f with staff := [r.fresh] } else r.face? n := by
  obtain ⟨sc, hs, rfl⟩ := Option.map_eq_some_iff.mp hf
  obtain ⟨hl, ha⟩ : sc.loop = none ∧ sc.announcement = none := by simpa [Scout.face] using hidle
  simp only [startSource, hs]
  split
  · refine (face?_setScout ..).trans ?_
    rw [Scout.face, Scout.face, ha]
    rfl
  · refine (face?_setScout ..).trans ?_
    rw [Scout.face, Scout.face, hl]
    rfl

theorem retireSource_fresh (r : Relay) (k : Key) : (r.retireSource k).fresh = r.fresh := by
  rw [retireSource]
  split
  · exact (stopSource_times (r.setRegistry (r.withoutSource k)) _).1
  · rfl

theorem installSource_face (r : Relay) (k : Key) (x : Source) (n : Nat) :
    (r.installSource k x).face? n = ((r.retireSource k).startSource x).face? n := by
  rw [installSource_eq]
  rfl

theorem face?_fresh (hn : Numbered r) : r.face? r.fresh = none := by
  rw [face?, hn.scouts r.fresh (Nat.le_refl _)]
  rfl

theorem putDiscovery_face (hn : Numbered r) (k : Key) (spec : Discovery.Spec)
    (connected reports : Bool) (n : Nat) : (r.putDiscovery k spec connected reports).face? n =
      if n = r.fresh then some ⟨k, reports, false, [r.fresh + 1]⟩
      else (r.face? n).map fun f =>
        if r.registry.sources.get? k = some (.scout n) then { f with stopped := true } else f := by
  have hmade (i : Nat) : (r.addScout k spec connected reports).1.face? i =
      if i = r.fresh then some ⟨k, reports, false, []⟩ else r.face? i := face?_setScout ..
  have hk : r.registry.sources.get? k ≠ some (.scout r.fresh) := by
    intro hk
    exact Nat.lt_irrefl _ (hn.sources k _ hk)
  have hretired (i : Nat) := retireSource_face (r.addScout k spec connected reports).1 k i
  have hnew : ((r.addScout k spec connected reports).1.retireSource k).face? r.fresh =
      some ⟨k, reports, false, []⟩ := by
    rw [hretired, hmade, if_pos rfl, Option.map_some]
    change some (if r.registry.sources.get? k = some (.scout r.fresh) then _ else _) = _
    rw [if_neg hk]
  change ((r.addScout k spec connected reports).1.installSource k (.scout r.fresh)).face? n = _
  rw [installSource_face, startSource_face hnew rfl, retireSource_fresh]
  split
  · rfl
  · rename_i hne
    rw [hretired, hmade, if_neg hne]
    rfl

theorem install_face (hn : Numbered r) (hm : r.move m = some s) (htu : ∀ me, m ≠ .turn me) (n : Nat) :
    s.face? n = if n = r.fresh then r.born? m else (r.face? n).map (r.retired m n) := by
  have unborn (hb : r.born? m = none) (hs : s.face? n = (r.face? n).map (r.retired m n)) :
      s.face? n = if n = r.fresh then r.born? m else (r.face? n).map (r.retired m n) := by
    rw [hs, hb]
    split
    · rename_i hf
      rw [hf, face?_fresh hn]
      rfl
    · rfl
  have same (hb : r.born? m = none) (hk : m.sourceKey? = none) (hs : s.scouts = r.scouts) :
      s.face? n = if n = r.fresh then r.born? m else (r.face? n).map (r.retired m n) := by
    have hid : r.retired m n = id := by
      funext f
      simp [retired, hk]
    exact unborn hb (by rw [hid, Option.map_id_apply, face?_eq hs])
  cases m with
  | turn me => exact absurd rfl (htu me)
  | addDiscovery k spec connected reports =>
    obtain rfl := Option.some.inj hm
    exact putDiscovery_face hn k spec connected reports n
  | addProbeSource k collectors =>
    obtain rfl := Option.some.inj hm
    exact unborn rfl ((installSource_face r.addProbe.1 k _ n).trans (retireSource_face r.addProbe.1 k n))
  | addPool k spec size accepts every =>
    obtain rfl := Option.some.inj hm
    exact same rfl rfl (installDrain_undisturbed ((r.addOutlet accepts).1.addPool k spec r.fresh every).1 k _
      size).scouts
  | addProbeDrain k size keeps =>
    obtain rfl := Option.some.inj hm
    exact same rfl rfl (installDrain_undisturbed r.addProbe.1 k _ size).scouts
  | call | surround | elapse =>
    obtain rfl := Option.some.inj hm
    exact same rfl rfl rfl

/-! Those who work for a discovery -/

/-- The discovery whose loop a task is, or that it says does not run. -/
def Task.runner? : Task → Option Nat
  | .loop n _ _ | .announcement n => some n
  | _ => none

theorem runner?_blind : Blind Task.runner? := ⟨fun _ _ _ => rfl, fun _ _ _ _ => rfl⟩

theorem Acted.runner (h : Acted r me t s t') (ht : t'.runner? = some n) : t.runner? = some n := by
  cases h with
  | works hp hw => rcases Numbered.worked_task hw with ⟨w', rfl⟩ | rfl <;> cases ht
  | waits h => rcases h with rfl | ⟨_, _, rfl⟩ <;> cases ht
  | begins => exact ht
  | cycles due hn hc h => rcases h with ⟨_, rfl⟩ | rfl <;> exact ht
  | calls h =>
    rcases h.tolerance with ⟨acts', rfl⟩ | he
    · cases ht
    · cases t' <;> simp_all [Task.isEnded, Task.runner?]
  | _ => cases ht

theorem move_runner (hr : Reachable r) (hm : r.move m = some s) (hw : s.view Task.runner? w = some n) :
    r.view Task.runner? w = some n ∨ n = r.fresh ∧ w = r.fresh + 1 ∧ ∃ k spec connected reports,
      m = .addDiscovery k spec connected reports := by
  rcases m.turn_or with ⟨me, rfl⟩ | htu
  · obtain ⟨t, t', s', ht, ha, rfl, hv⟩ := runner?_blind.step hr.numbered hm
    rw [hv] at hw
    split at hw
    · rename_i hwm
      exact .inl (hwm ▸ (view_eq ht).trans (ha.runner hw))
    · exact .inl hw
  · obtain ⟨w₀, -, hv⟩ := runner?_blind.move hr hm htu
    have silent (hh : (r.hired? m).bind Task.runner? = none) : r.view Task.runner? w = some n := by
      rw [hv, hh] at hw
      split at hw
      · cases hw
      · exact hw
    cases m with
    | turn me => exact absurd rfl (htu me)
    | call c => exact .inl (silent (by cases c <;> rfl))
    | addDiscovery k spec connected reports =>
      obtain rfl := Option.some.inj hm
      rw [Blind.putDiscovery] at hw
      split at hw
      · rename_i hwf
        have hn : r.fresh = n := by
          split at hw <;> exact Option.some.inj hw
        exact .inr ⟨hn.symm, hwf, k, spec, connected, reports, rfl⟩
      · exact .inl hw
    | addPool k | addProbeDrain k =>
      refine .inl (silent ?_)
      simp only [hired?, retirement?]
      split
      · cases r.pools.get? _ <;> rfl
      · rfl
    | _ => exact .inl (silent rfl)

/-- All who work for a discovery are written down in it. -/
def Rostered (r : Relay) (n : Nat) : Prop :=
  ∀ w, r.view Task.runner? w = some n → ∃ f, r.face? n = some f ∧ w ∈ f.staff

theorem Reachable.joining_gone (hr : Reachable r) (hw : r.view Task.head? w = some (.joinSource x)) :
    Gone r x.member := by
  refine hr.holds (P := fun r => ∀ w x, r.view Task.head? w = some (.joinSource x) → Gone r x.member)
    ?_ ?_ w x hw
  · intro inventory network every w x h
    simp [view, start] at h
  · intro r m s hr h hm w x hw
    have hs : Reachable s := hr.later (.after m .same hm)
    rcases move_head hr hm hw rfl with hw | ⟨b, rfl, hb, hf⟩ | ⟨c, -, hc⟩
    · exact ((h w x hw).passage (move_passage hr.numbered hr.stage hm)).1
    · cases hf
      obtain ⟨rest, tolerant, ht⟩ := view_head.mp hb
      exact (hs.stage _).gone_of_life (stops_life hr ht hm) rfl (by simp)
    · cases c <;> cases hc

theorem mark_staff {f : Face} (hj : t.head? ≠ some (.joinSource (.scout n))) : (t.mark n f).staff = f.staff := by
  cases t with
  | call acts tolerant =>
    cases acts with
    | nil => rfl
    | cons a rest =>
      cases a with
      | stopSource x =>
        simp only [Task.mark, Act.mark]
        split <;> rfl
      | joinSource x =>
        simp only [Task.mark, Act.mark]
        rw [if_neg]
        rintro rfl
        exact hj rfl
      | _ => rfl
  | _ => rfl

theorem Rostered.move (h : Rostered r n) (hr : Reachable r) (hm : r.move m = some s)
    (hno : ∀ me, m = .turn me → r.view Task.head? me ≠ some (.joinSource (.scout n))) : Rostered s n := by
  intro w hw
  rcases m.turn_or with ⟨me, rfl⟩ | htu
  · rcases move_runner hr hm hw with hw | ⟨-, -, _, _, _, _, ⟨⟩⟩
    obtain ⟨f, hf, hin⟩ := h w hw
    obtain ⟨t, ht, hface⟩ := step_face hr.numbered hm n
    refine ⟨t.mark n f, by rw [hface, hf, Option.map_some], ?_⟩
    rw [mark_staff fun hj => hno me rfl ((view_eq ht).trans hj)]
    exact hin
  · have hface := install_face hr.numbered hm htu n
    rcases move_runner hr hm hw with hw | ⟨rfl, rfl, k, spec, connected, reports, rfl⟩
    · obtain ⟨f, hf, hin⟩ := h w hw
      have hne : n ≠ r.fresh := by
        rintro rfl
        simp [face?_fresh hr.numbered] at hf
      rw [if_neg hne, hf, Option.map_some] at hface
      refine ⟨_, hface, ?_⟩
      rw [retired]
      split <;> exact hin
    · rw [if_pos rfl] at hface
      exact ⟨_, hface, List.mem_singleton.mpr rfl⟩

theorem Reachable.rostered (hr : Reachable r) (n : Nat) : Gone r (.scout n) ∨ Rostered r n := by
  refine hr.holds (P := fun r => Gone r (.scout n) ∨ Rostered r n) ?_ ?_
  · intro inventory network every
    refine .inr fun w hw => ?_
    simp [view, start] at hw
  · intro r m s hr h hm
    rcases h with hg | h
    · exact .inl (hg.passage (move_passage hr.numbered hr.stage hm)).1
    · -- only the call that takes the tasks over removes them from the discovery
      by_cases hj : ∃ me, m = .turn me ∧ r.view Task.head? me = some (.joinSource (.scout n))
      · obtain ⟨me, rfl, hj⟩ := hj
        exact .inl ((hr.joining_gone hj).passage (move_passage hr.numbered hr.stage hm)).1
      · exact .inr (h.move hr hm fun me he hj' => hj ⟨me, he, hj'⟩)

end ScrapeRelay.Relay
