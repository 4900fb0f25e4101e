import Mathlib.Data.List.Induction
import ScrapeRelay.Proofs.Dict
import ScrapeRelay.Status.Board

/-!
What a board holds about a discovery: its latest status, and series that are labelled with its key. Series are
found under the text of their labels, so a board that forgets a discovery finds all of its series.
-/

namespace ScrapeRelay.Status

namespace Gauges

def Keyed (g : Gauges) : Prop := ∀ f i s, (g.family f).get? i = some s → identity s.labels = i

def Free (g : Gauges) (k : Key) : Prop :=
  ∀ f ∈ Family.ofDiscoveries, ∀ i s, (g.family f).get? i = some s → s.labels ≠ k

def renewed (k : Key) (x : Float) (found : Option Series) : Series := ⟨(found.map (·.labels)).getD k, x⟩

def told (f : Family) (values : List (Family × Float)) (before : Option Float) : Option Float :=
  values.foldl (fun said e => if f = e.1 then some e.2 else said) before

variable {g : Gauges} {f f' : Family} {k k' : Key} {i : String} {x : Float} {s : Series} {fs : List Family}
  {values : List (Family × Float)}

theorem family_insert (d : Dict String Series) : (Gauges.mk (g.families.insert f d)).family f' =
    if f' = f then d else g.family f' := by
  simp only [family, Dict.getD, Dict.get?_insert]
  split <;> rfl

/-! What is under a text afterwards -/

theorem set_get? : ((g.set f k x).family f').get? i =
    if f' = f ∧ i = identity k then some (renewed k x ((g.family f').get? i)) else (g.family f').get? i := by
  rw [set, family_insert]
  by_cases hf : f' = f
  · subst hf
    rw [if_pos rfl, Dict.modify, Dict.get?_insert]
    by_cases hi : i = identity k
    · simp [hi, renewed]
    · simp [hi]
  · simp [hf]

theorem told_concat (e : Family × Float) :
    told f (values ++ [e]) none = if f = e.1 then some e.2 else told f values none := by
  simp [told]

theorem setAll_get? : ((g.setAll k values).family f).get? i =
    if i = identity k then ((told f values none).map fun x => renewed k x ((g.family f).get? i)).or
      ((g.family f).get? i)
    else (g.family f).get? i := by
  induction values using List.reverseRecOn with
  | nil => simp [setAll, told]
  | append_singleton values e ih =>
    have step : g.setAll k (values ++ [e]) = (g.setAll k values).set e.1 k e.2 := by simp [setAll]
    rw [step, set_get?, ih, told_concat]
    by_cases hf : f = e.1 <;> by_cases hi : i = identity k
    · simp only [hf, hi, and_self, if_true, Option.map_some, Option.some_or, Option.some.injEq, renewed]
      cases told e.1 values none <;> cases (g.family e.1).get? (identity k) <;> rfl
    all_goals simp [hf, hi]

theorem remove_get? : ((g.remove k fs).family f).get? i =
    if i = identity k ∧ f ∈ fs then none else (g.family f).get? i := by
  induction fs generalizing g with
  | nil => simp [remove]
  | cons f' rest ih =>
    have step : g.remove k (f' :: rest) = (g.removeFrom k f').remove k rest := rfl
    rw [step, ih, removeFrom, family_insert]
    by_cases hf : f = f' <;> by_cases hi : i = identity k <;> simp [hf, hi]

theorem mem_of_told (h : told f values none = some x) : f ∈ values.map (·.1) := by
  induction values using List.reverseRecOn with
  | nil => cases h
  | append_singleton values e ih =>
    rw [told_concat] at h
    split at h
    · rename_i hf
      simp [hf]
    · rw [List.map_append]
      exact List.mem_append_left _ (ih h)

theorem setAll_series (h : ((g.setAll k values).family f').get? i = some s) :
    (∃ s', (g.family f').get? i = some s' ∧ s'.labels = s.labels) ∨
      f' ∈ values.map (·.1) ∧ i = identity k ∧ s.labels = k := by
  rw [setAll_get?] at h
  split at h
  · rename_i hi
    cases ht : told f' values none with
    | none => exact .inl ⟨s, by simpa [ht] using h, rfl⟩
    | some x =>
      obtain rfl : renewed k x ((g.family f').get? i) = s := by simpa [ht] using h
      cases hs : (g.family f').get? i with
      | none => exact .inr ⟨mem_of_told ht, hi, rfl⟩
      | some s' => exact .inl ⟨s', rfl, rfl⟩
  · exact .inl ⟨s, h, rfl⟩

theorem remove_series (h : ((g.remove k fs).family f').get? i = some s) :
    (g.family f').get? i = some s ∧ (f' ∈ fs → i ≠ identity k) := by
  rw [remove_get?] at h
  split at h
  · cases h
  · rename_i hno
    exact ⟨h, fun hf hi => hno ⟨hi, hf⟩⟩

theorem Keyed.setAll (h : g.Keyed) (k : Key) (values : List (Family × Float)) : (g.setAll k values).Keyed := by
  intro f i s hs
  rcases setAll_series hs with ⟨s', hs', hl⟩ | ⟨-, hi, hl⟩
  · rw [← hl]
    exact h f i s' hs'
  · rw [hl, hi]

theorem Keyed.remove (h : g.Keyed) (k : Key) (fs : List Family) : (g.remove k fs).Keyed :=
  fun f i s hs => h f i s (remove_series hs).1

theorem Free.setAll (h : g.Free k) (hk : k' ≠ k ∨ ∀ f ∈ Family.ofDiscoveries, f ∉ values.map (·.1)) :
    (g.setAll k' values).Free k := by
  intro f hf i s hs
  rcases setAll_series hs with ⟨s', hs', hl⟩ | ⟨hin, -, hl⟩
  · rw [← hl]
    exact h f hf i s' hs'
  · rw [hl]
    exact hk.resolve_right fun hno => hno f hf hin

theorem Free.remove (h : g.Free k) (k' : Key) (fs : List Family) : (g.remove k' fs).Free k :=
  fun f hf i s hs => h f hf i s (remove_series hs).1

theorem Keyed.removed (h : g.Keyed) (k : Key) : (g.remove k Family.ofDiscoveries).Free k := by
  intro f hf i s hs
  obtain ⟨hold, hi⟩ := remove_series hs
  rintro rfl
  exact hi hf (h f i s hold).symm

end Gauges

namespace Board

structure Free (b : Board) (k : Key) : Prop where
  status : b.discoveries.get? k = none
  series : b.gauges.Free k

variable {b : Board} {k k' : Key}

theorem empty_keyed : empty.gauges.Keyed := by
  intro f i s hs
  simp [empty, Gauges.family, Gauges.empty, Dict.getD] at hs

theorem empty_free (k : Key) : empty.Free k := by
  refine ⟨rfl, fun f hf i s hs => ?_⟩
  simp [empty, Gauges.family, Gauges.empty, Dict.getD] at hs

theorem Free.updateDiscovery (h : b.Free k) (hk : k' ≠ k) (s : Discovery.Status) :
    (b.updateDiscovery k' s).Free k := by
  refine ⟨?_, h.series.setAll (.inl hk)⟩
  rw [Board.updateDiscovery, Dict.get?_insert, if_neg (Ne.symm hk), h.status]

theorem Free.updateCollector (h : b.Free k) (k' : Key) (s : Collector.Status) :
    (b.updateCollector k' s).Free k := by
  refine ⟨h.status, h.series.setAll (.inr fun f hf => ?_)⟩
  have hdisjoint : ∀ f ∈ Family.ofDiscoveries, f ∉ Family.ofCollectors := by decide
  exact hdisjoint f hf

theorem Free.forgetDiscovery (h : b.Free k) (k' : Key) : (b.forgetDiscovery k').Free k := by
  refine ⟨?_, h.series.remove k' _⟩
  rw [Board.forgetDiscovery, Dict.get?_erase]
  split
  · rfl
  · exact h.status

theorem Free.forgetCollector (h : b.Free k) (k' : Key) : (b.forgetCollector k').Free k :=
  ⟨h.status, h.series.remove k' _⟩

theorem forgetDiscovery_free (h : b.gauges.Keyed) (k : Key) : (b.forgetDiscovery k).Free k := by
  refine ⟨?_, h.removed k⟩
  rw [forgetDiscovery, Dict.get?_erase, if_pos rfl]

end Board

end ScrapeRelay.Status
