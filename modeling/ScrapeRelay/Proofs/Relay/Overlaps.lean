import ScrapeRelay.Proofs.Relay.Boards

/-!
Calls that overlap. A discovery that is installed while no call is about to make the board forget its key keeps its
status on the board for as long as it is registered, whatever else is called meanwhile. A call that has removed the
discovery before it is about to: what is installed in its place loses the status that it has put on the board.
-/

namespace ScrapeRelay.Relay

/-- No call is about to make the board forget the discovery under a key. -/
def Unthreatened (r : Relay) (k : Key) : Prop :=
  ∀ w acts tolerant, r.tasks.get? w = some (.call acts tolerant) → Act.forgetDiscovery k ∉ acts

variable {r s u : Relay} {me n : Nat} {k : Key} {acts acts' : List Act} {tolerant : Bool} {m : Move}

theorem Call.forgets_nothing (r : Relay) (c : Call) (k : Key) : Act.forgetDiscovery k ∉ c.acts r := by
  cases c <;> simp [Call.acts, sendCall, shutdownCall]

theorem closeDrain_forgets_nothing (r : Relay) (d : Drain) (k : Key) :
    Act.forgetDiscovery k ∉ (r.closeDrain d).2 := by
  cases d with
  | probe n keeps => simp [closeDrain_probe]
  | pool n =>
    cases hp : r.pools.get? n with
    | none => simp [closeDrain, hp]
    | some p => simp [closeDrain_pool hp]

theorem Called.threatens (h : Called r me tolerant acts s (.call acts' tolerant))
    (ha : .forgetDiscovery k ∈ acts') : .forgetDiscovery k ∈ acts ∨ s.registry.sources.get? k = none := by
  generalize he : Task.call acts' tolerant = t' at h
  cases h with
  | ends => cases he
  | listsSources rest | listsDrains rest =>
    obtain ⟨rfl, -⟩ := Task.call.inj he
    exact .inl (List.mem_cons_of_mem _ (by simpa using ha))
  | @removesSource k' x rest hx =>
    obtain ⟨rfl, -⟩ := Task.call.inj he
    by_cases hk : k = k'
    · subst hk
      exact .inr ((Dict.get?_erase ..).trans (if_pos rfl))
    · exact .inl (List.mem_cons_of_mem _ (by simpa [hk] using ha))
  | removesDrain rest hd =>
    obtain ⟨rfl, -⟩ := Task.call.inj he
    exact .inl (List.mem_cons_of_mem _ (by simpa using ha))
  | missesSource f rest hx | missesDrain f rest hd =>
    cases tolerant
    · cases he
    · obtain ⟨rfl, -⟩ := Task.call.inj he
      exact .inl (List.mem_cons_of_mem _ ha)
  | sends rest hd ht =>
    rcases ht with ⟨d', rfl⟩ | rfl | ht
    · obtain ⟨rfl, -⟩ := Task.call.inj he
      exact .inl (List.mem_cons_of_mem _ (by simpa using ha))
    · obtain ⟨rfl, -⟩ := Task.call.inj he
      exact .inl (List.mem_cons_of_mem _ ha)
    · subst he
      cases ht
  | cycles rest hn hc ht =>
    rcases ht with ⟨c', rfl⟩ | ht
    · obtain ⟨rfl, -⟩ := Task.call.inj he
      exact .inl (List.mem_cons_of_mem _ (by simpa using ha))
    · subst he
      cases ht
  | joins x rest =>
    obtain ⟨rfl, -⟩ := Task.call.inj he
    exact .inl (List.mem_cons_of_mem _ (by simpa using ha))
  | closes d rest =>
    obtain ⟨rfl, -⟩ := Task.call.inj he
    exact .inl (List.mem_cons_of_mem _ (by simpa [closeDrain_forgets_nothing] using ha))
  | _ =>
    obtain ⟨rfl, -⟩ := Task.call.inj he
    exact .inl (List.mem_cons_of_mem _ ha)

theorem Unthreatened.move (h : Unthreatened r k) (hr : Reachable r) (hm : r.move m = some s)
    (hk : s.registry.sources.get? k ≠ none) : Unthreatened s k := by
  intro w acts tolerant ht ha
  by_cases hw : m = .turn w
  · subst hw
    rcases step_call hr.numbered hm ht with ⟨hne, -⟩ | ⟨acts', s', -, ht', hc, rfl⟩
    · exact hne rfl
    · rcases hc.threatens ha with ha' | hgone
      · exact h w acts' tolerant ht' ha'
      · exact hk hgone
  · rcases move_call hr hm hw ht with ht | ⟨c, rfl, rfl, -⟩
    · exact h w acts tolerant ht ha
    · exact c.forgets_nothing r k ha

theorem registered_before (hn : Numbered r) (hm : r.move m = some s) (hlt : n < r.fresh)
    (hk : s.registry.sources.get? k = some (.scout n)) : r.registry.sources.get? k = some (.scout n) := by
  rcases m.turn_or with ⟨me, rfl⟩ | htu
  · cases hx : r.registry.sources.get? k with
    | none =>
      have := step_unregistered hn hm hx
      simp [hk] at this
    | some x =>
      rcases step_sources hn hm hx with hs | ⟨hs, -⟩
      · exact hs.symm.trans hk
      · simp [hk] at hs
  · by_cases hsource : m.sourceKey? = some k
    · rw [move_registry hn hm] at hk
      cases m with
      | addDiscovery k' =>
        obtain rfl := Option.some.inj hsource
        have hnew : some (Source.scout r.fresh) = some (.scout n) := by
          simpa [entered?, Registry.enter] using hk
        obtain rfl := Source.scout.inj (Option.some.inj hnew)
        exact absurd hlt (Nat.lt_irrefl _)
      | addProbeSource k' =>
        obtain rfl := Option.some.inj hsource
        simp [entered?, Registry.enter] at hk
      | _ => cases hsource
    · rw [← install_sources hn hm htu hsource, hk]

theorem forgets_nothing (h : Unthreatened r k) (hr : Reachable r) (hm : r.move m = some s) :
    Adds r s (· ≠ .discoveryForgotten k) := by
  rcases m.turn_or with ⟨me, rfl⟩ | htu
  · obtain ⟨t, ht, hj⟩ := step_tells hr.numbered hm
    refine hj.mono fun e he => ?_
    rintro rfl
    cases he with
    | works _ hw => cases hw
    | forgets k rest tolerant => exact h me _ _ ht List.mem_cons_self
  · refine (move_tells hr hm htu).mono fun e he => ?_
    cases he <;> simp

theorem mem_noticesIn {events : List Event} {notice : Status.Notice} :
    notice ∈ noticesIn events ↔ ∃ e ∈ events, e.notice? = some notice := by
  simp [noticesIn, List.mem_filterMap]

theorem Hears.status {events : List Event} {status : Discovery.Status} (h : Hears r s)
    (hj : s.journal = events ++ r.journal) (hno : .discoveryForgotten k ∉ events)
    (hw : .discoveryStatus k status ∈ events) :
    ∃ last, s.board.discoveries.get? k = some last ∧ .discoveryStatus k last ∈ events := by
  obtain ⟨⟨events', hj', hb⟩, -⟩ := h
  obtain rfl := List.append_cancel_right (hj.symm.trans hj')
  have told : some status ∈ (noticesIn events).filterMap (Status.Notice.discovery? k) :=
    List.mem_filterMap.mpr ⟨.discovery k status, mem_noticesIn.mpr ⟨_, hw, rfl⟩, if_pos rfl⟩
  obtain ⟨last, hlast⟩ :=
    Option.ne_none_iff_exists'.mp (mt List.getLast?_eq_none_iff.mp (List.ne_nil_of_mem told))
  rw [hb, Status.foldl_hear_discoveries, hlast, Option.getD_some]
  obtain ⟨notice, hn, hs⟩ := List.mem_filterMap.mp (List.mem_of_getLast? hlast)
  obtain ⟨e, he, hen⟩ := mem_noticesIn.mp hn
  cases e with
  | discoveryStatus k' status' =>
    obtain rfl := Option.some.inj hen
    simp only [Status.Notice.discovery?] at hs
    split at hs
    · rename_i hk
      exact ⟨status', (Option.some.inj hs).symm, hk ▸ he⟩
    · cases hs
  | discoveryForgotten k' =>
    obtain rfl := Option.some.inj hen
    simp only [Status.Notice.discovery?] at hs
    split at hs
    · rename_i hk
      exact absurd (hk ▸ he) hno
    · cases hs
  | collectorStatus | collectorForgotten =>
    obtain rfl := Option.some.inj hen
    cases hs
  | _ => cases hen

structure Lasting (r s : Relay) (n : Nat) (k : Key) : Prop where
  reachable : Reachable s
  known : n < s.fresh
  unthreatened : s.registry.sources.get? k = some (.scout n) → Unthreatened s k
  unforgotten : s.registry.sources.get? k = some (.scout n) → Adds r s (· ≠ .discoveryForgotten k)

theorem Lasting.move (h : Lasting r s n k) (hm : s.move m = some u) : Lasting r u n k := by
  have hn := h.reachable.numbered
  refine ⟨h.reachable.later (.after m .same hm), Nat.lt_of_lt_of_le h.known (move_fresh hn hm), fun hk => ?_,
    fun hk => ?_⟩
  · exact (h.unthreatened (registered_before hn hm h.known hk)).move h.reachable hm (by simp [hk])
  · have hk := registered_before hn hm h.known hk
    exact (h.unforgotten hk).trans (forgets_nothing (h.unthreatened hk) h.reachable hm)

theorem status_stays {spec : Discovery.Spec} {connected reports : Bool} {ms : List Move} {events : List Event}
    {status : Discovery.Status} (hr : Reachable r) (hclear : Unthreatened r k)
    (hs : r.move (.addDiscovery k spec connected reports) = some s) (ho : s.refusing = false)
    (hu : s.replay ms = some u) (hq : ∀ m ∈ ms, m.accepts = true)
    (hk : u.registry.sources.get? k = some (.scout r.fresh)) (hj : u.journal = events ++ s.journal)
    (hw : .discoveryStatus k status ∈ events) :
    ∃ last, u.board.discoveries.get? k = some last ∧ .discoveryStatus k last ∈ events := by
  have hreach : Reachable s := hr.later (.after _ .same hs)
  have hnew : s.registry.sources.get? k = some (.scout r.fresh) := by
    rw [move_registry hr.numbered hs]
    simp [entered?, Registry.enter]
  have hlt : r.fresh < s.fresh := hreach.numbered.sources k _ hnew
  have first : Lasting s s r.fresh k :=
    ⟨hreach, hlt, fun _ => hclear.move hr hs (by simp [hnew]), fun _ => .nothing rfl⟩
  have lasting : Lasting s u r.fresh k :=
    replay_keeps (P := fun u => Lasting s u r.fresh k) (fun _ _ _ h hm => h.move hm) hu first
  obtain ⟨events', hj', hno⟩ := lasting.unforgotten hk
  obtain rfl := List.append_cancel_right (hj.symm.trans hj')
  exact (replay_hears hreach hu hq ho).status hj (fun hin => hno _ hin rfl) hw

/-- A disabled discovery is being removed when another one is installed under its key, which says that it does
not run before the call that removes the first one goes on. -/
def overlapping : List Move :=
  let install : Move := .addDiscovery (market "scan") { Discovery.Spec.standard with enabled := false } true true
  [install, .turn 1, .call (.removeDiscovery (market "scan"))] ++ alone 2 2 ++ [install, .turn 4] ++ alone 2 4

/-- The discovery that was installed meanwhile is registered and has put its status on the board, both calls have
returned, and the board does not have that status. -/
theorem status_lost :
    ∃ r, (start fair .silent (some 10000)).replay overlapping = some r ∧ r.hasEnded 2 = true ∧
    r.registry.sources.get? (market "scan") = some (.scout 3) ∧
    r.journal.take 2 = [.discoveryForgotten (market "scan"), .discoveryStatus (market "scan") .idle] ∧
    r.board.discoveries.get? (market "scan") = none := by
  have facts : ((start fair .silent (some 10000)).replay overlapping).any (fun r => r.hasEnded 2 = true ∧
      r.registry.sources.get? (market "scan") = some (.scout 3) ∧
      r.journal.take 2 = [.discoveryForgotten (market "scan"), .discoveryStatus (market "scan") .idle] ∧
      r.board.discoveries.get? (market "scan") = none) = true := by
    decide +kernel
  obtain ⟨r, hr, facts⟩ := (Option.any_eq_true ..).mp facts
  exact ⟨r, hr, of_decide_eq_true facts⟩

end ScrapeRelay.Relay
