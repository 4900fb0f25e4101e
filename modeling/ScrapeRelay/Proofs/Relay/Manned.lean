import ScrapeRelay.Proofs.Relay.Closing

/-!
Where pools are all that takes from channels, a channel that somebody can send to has a worker: its pool is
registered or is being closed, and the workers of such a pool stay as long as there is a sending end.
-/

namespace ScrapeRelay.Relay

/-- Moves that install nothing but pools in front of channels. -/
def Move.isPooled : Move → Bool
  | .addProbeDrain .. => false
  | _ => true

def Pooled (r : Relay) : Prop := ∀ k d, r.registry.drains.get? k = some d → ∃ n, d = .pool n

/-- A channel that is registered, or whose pool a call took from the registry. -/
def Manned (r : Relay) (c : Nat) : Prop :=
  (∃ k, r.registry.channels.get? k = some c) ∨ ∃ me n, Closing r me n c

structure Staffed (r : Relay) : Prop where
  reachable : Reachable r
  pooled : Pooled r
  manned : ∀ w t c, r.tasks.get? w = some t → t.outbound? = some c → Manned r c

variable {r s : Relay} {me n c w : Nat} {t : Task} {k : Key} {m : Move}

theorem Pooled.move (h : Pooled r) (hn : Numbered r) (hp : m.isPooled = true) (hm : r.move m = some s) :
    Pooled s := by
  intro k d hd
  rw [move_registry hn hm] at hd
  cases he : r.entered? m with
  | none =>
    rw [he] at hd
    exact h k d hd
  | some e =>
    rw [he, Option.elim_some] at hd
    cases e with
    | source | noSource => exact h k d hd
    | noDrain k' => exact h k d (Dict.of_get?_erase hd).2
    | drain k' d' room staff =>
      rcases Dict.of_get?_insert hd with ⟨rfl, rfl⟩ | ⟨-, hd⟩
      · rcases entered?_drain he with ⟨spec, accepts, every, rfl, rfl, -⟩ | ⟨keeps, rfl, -⟩
        · exact ⟨_, rfl⟩
        · simp [Move.isPooled] at hp
      · exact h k d hd

/-! Sending ends -/

theorem Quiet.outbound (h : Quiet r s) (ht : s.tasks.get? w = some t) (ho : t.outbound? = some c) :
    ∃ u, r.tasks.get? w = some u ∧ u.outbound? = some c := by
  have hr := h.tasks w
  rw [ht] at hr
  generalize hu : r.tasks.get? w = t? at hr
  cases hr with
  | kept ha =>
    cases ha with
    | same => exact ⟨t, rfl, ho⟩
    | reporters => simp [Task.outbound?, Task.delivery?] at ho
  | worker n c => simp [Task.outbound?, Task.delivery?] at ho
  | plain t hw hn => simp [hn] at ho

theorem move_outbound (hn : Numbered r) (hm : r.move m = some s) (ht : s.tasks.get? w = some t)
    (ho : t.outbound? = some c) :
    (∃ u, r.tasks.get? w = some u ∧ u.outbound? = some c) ∨ ∃ k, r.registry.channels.get? k = some c := by
  by_cases htu : ∃ me, m = .turn me
  · obtain ⟨me, rfl⟩ := htu
    obtain ⟨u, u', s', hu, -, hd, rfl⟩ := step_did hn hm
    rcases Dict.of_get?_insert ht with ⟨rfl, rfl⟩ | ⟨-, ht⟩
    · have held (hh : Held r u.delivery? t.delivery?) :
          (∃ u, r.tasks.get? w = some u ∧ u.outbound? = some c) ∨
          ∃ k, r.registry.channels.get? k = some c :=
        (hh c ho).imp_left fun h => ⟨u, hu, h⟩
      cases hd with
      | nothing _ _ _ _ hh => exact held hh
      | delivered _ _ _ _ _ hh => exact held hh
      | worked n i x p _ _ hs =>
        rcases Numbered.worked_task hs with ⟨x', rfl⟩ | rfl <;>
          simp [Task.outbound?, Task.delivery?, finished] at ho
    · cases hd with
      | nothing hq => exact .inl (hq.outbound ht ho)
      | delivered _ _ hs => exact .inl ⟨t, delivered_tasks hs ▸ ht, ho⟩
      | worked _ _ _ _ _ _ hs => exact .inl ⟨t, Numbered.worked_tasks hs ▸ ht, ho⟩
  · exact .inl ((move_quiet hn hm fun me he => htu ⟨me, he⟩).outbound ht ho)

/-! Channels that are manned -/

theorem Reachable.registered_manned (hr : Reachable r) (hp : Pooled r) (hc : r.registry.channels.get? k = some c)
    (hm : r.move m = some s) : Manned s c := by
  have hreg := move_registry hr.numbered hm
  cases he : r.entered? m with
  | none =>
    rw [he, Option.elim_none] at hreg
    exact .inl ⟨k, hreg ▸ hc⟩
  | some e =>
    rw [he, Option.elim_some] at hreg
    cases e with
    | source | noSource => exact .inl ⟨k, hreg ▸ hc⟩
    | drain k' d room staff =>
      refine .inl ⟨k, ?_⟩
      by_cases hk : k = k'
      · subst hk
        simp [hreg, Registry.enter, withChannel_same, hc]
      · simpa [hreg, Registry.enter, withChannel_other hk] using hc
    | noDrain k' =>
      by_cases hk : k = k'
      · subst hk
        obtain ⟨me, d, rest, tolerant, rfl, hd, ht⟩ := entered?_removal he
        obtain ⟨n, rfl⟩ := hp k d hd
        exact .inr ⟨me, n, hr.closing hd hc ht hm⟩
      · exact .inl ⟨k, by simpa [hreg, Registry.enter, hk] using hc⟩

theorem Manned.move (h : Manned r c) (hr : Reachable r) (hp : Pooled r) (hm : r.move m = some s) : Manned s c := by
  rcases h with ⟨k, hc⟩ | ⟨me, n, hc⟩
  · exact hr.registered_manned hp hc hm
  · exact .inr ⟨me, n, hc.move hr hm⟩

theorem Crew.receiver {ws : List Nat} (h : Crew r n c ws) (hs : ¬ Sealed r c) : r.hasReceiver c = true := by
  obtain ⟨w, hw⟩ := List.exists_mem_of_ne_nil ws h.anyone
  rcases h.member w hw with ⟨x, ht⟩ | ⟨-, hc⟩
  · have hany : r.tasks.values.any (·.receivesFrom c) = true :=
      List.any_eq_true.mpr ⟨_, Dict.mem_values.mpr ⟨w, ht⟩, by simp [Task.receivesFrom]⟩
    simp [hasReceiver, hany]
  · exact absurd hc hs

theorem Manned.receiver (h : Manned r c) (hs : ¬ Sealed r c) : r.hasReceiver c = true := by
  rcases h with ⟨k, hc⟩ | ⟨me, n, hc⟩
  · have hin : c ∈ r.registry.channels.values := Dict.mem_values.mpr ⟨k, hc⟩
    simp [hasReceiver, hin]
  · cases hc with
    | taken _ _ hc => exact hc.receiver hs
    | waiting _ _ _ hc => exact hc.receiver hs
    | done hc => exact absurd hc hs

namespace Staffed

theorem start (inventory : Cluster.Inventory) (network : Network) (every : Option Nat) :
    Staffed (start inventory network every) :=
  ⟨⟨inventory, network, every, .same⟩, by simp [Pooled, Relay.start, Registry.empty],
    by simp [Relay.start]⟩

theorem move (h : Staffed r) (hp : m.isPooled = true) (hm : r.move m = some s) : Staffed s := by
  refine ⟨h.reachable.later (.after m .same hm), h.pooled.move h.reachable.numbered hp hm,
    fun w t c ht ho => ?_⟩
  rcases move_outbound h.reachable.numbered hm ht ho with ⟨u, hu, ho⟩ | ⟨k, hc⟩
  · exact (h.manned w u c hu ho).move h.reachable h.pooled hm
  · exact h.reachable.registered_manned h.pooled hc hm

theorem replay {ms : List Move} (h : Staffed r) (hp : ∀ m ∈ ms, m.isPooled = true)
    (hs : r.replay ms = some s) : Staffed s :=
  replay_keeps_by (P := Staffed) (fun _ _ _ h hp hm => h.move hp hm) hp hs h

theorem receiver (h : Staffed r) (ht : r.tasks.get? w = some t) (ho : t.outbound? = some c) :
    r.hasReceiver c = true :=
  (h.manned w t c ht ho).receiver fun hs => hs.unheld w t ht ho

end Staffed

end ScrapeRelay.Relay
