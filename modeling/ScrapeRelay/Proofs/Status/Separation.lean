import ScrapeRelay.Proofs.Status.Views

/-!
What a notice about one key does to what a board shows of the others. Statuses are kept by key, so those of all
others stay as they are. Series are kept under the text of their labels, so a notice changes what is under the
text of its key, whosever labels that has.
-/

namespace ScrapeRelay.Status

open Std

variable {b : Board} {n : Notice} {f : Family} {k : Key}

theorem hear_value?_of_eq (hk : n.key ≠ k) (ht : Gauges.identity n.key = Gauges.identity k) :
    (b.hear n).gauges.value? f k = (b.gauges.value? f k).bind fun x => (n.reading? f n.key).getD (some x) := by
  rw [Gauges.value?, hear_get?, if_pos ht.symm, Notice.leaves, Gauges.value?]
  cases hs : (b.gauges.family f).get? (Gauges.identity k) with
  | none =>
    -- a series that is made now is labelled with the key of the notice
    rcases n.reading? f n.key with - | - | x <;> simp [Gauges.renewed, hk]
  | some s =>
    by_cases hl : s.labels = k <;> rcases n.reading? f n.key with - | - | x <;> simp [Gauges.renewed, hl]

theorem Lists.filter {α : Type} {ordering : Key → Key → Ordering} [ReflCmp ordering]
    {value? : Key → Option α} {l : List (Key × α)} (h : Lists ordering value? l) (k : Key) :
    l.filter (fun e => e.1 = k) = ((value? k).map fun x => (k, x)).toList := by
  have sorted := h.sorted.filter fun e => decide (e.1 = k)
  have mem (e : Key × α) : e ∈ l.filter (fun e => decide (e.1 = k)) ↔ e.1 = k ∧ value? k = some e.2 := by
    rw [List.mem_filter, decide_eq_true_iff, and_comm]
    refine and_congr_right fun hk => ?_
    rw [← hk, ← h.mem]
  generalize l.filter (fun e => decide (e.1 = k)) = own at sorted mem
  match own with
  | [] =>
    cases hv : value? k with
    | none => rfl
    | some x => simpa [hv] using mem (k, x)
  | [e] =>
    obtain ⟨he, hv⟩ := (mem e).mp List.mem_cons_self
    rw [hv, ← he]
    rfl
  | e :: e' :: rest =>
    have hlt := (List.pairwise_cons.mp sorted).1 e' List.mem_cons_self
    have he := ((mem e).mp List.mem_cons_self).1
    have he' := ((mem e').mp (List.mem_cons_of_mem _ List.mem_cons_self)).1
    simp [he, he', ReflCmp.compare_self] at hlt

theorem rows_filter (h : b.gauges.Keyed) (f : Family) (k : Key) :
    (b.rows f).filter (fun r => r.1 = k) = ((b.gauges.value? f k).map fun x => (k, x)).toList := by
  have lists : Lists byName (b.gauges.value? f) (b.rows f) := ⟨rows_sorted h f, fun _ _ => mem_rows h⟩
  exact lists.filter k

theorem Notice.discovery?_of_ne (hk : n.key ≠ k) : n.discovery? k = none := by
  cases n <;> simp_all [Notice.discovery?, Notice.key, eq_comm]

theorem Notice.collector?_of_ne (hk : n.key ≠ k) : n.collector? k = none := by
  cases n <;> simp_all [Notice.collector?, Notice.key, eq_comm]

/-- A notice about one key leaves the statuses of every other as they were, and its series where the texts of
the two keys are different. Where they are the same, its series take the numbers of the notice, or go. -/
theorem hear_separate (notices : List Notice) (up : Float) (hk : n.key ≠ k) :
    (heard up (notices ++ [n])).discoveries.get? k = (heard up notices).discoveries.get? k ∧
    (heard up (notices ++ [n])).collectors.get? k = (heard up notices).collectors.get? k ∧
    ∃ before after, (heard up notices).render = page before up ∧
    (heard up (notices ++ [n])).render = page after up ∧
      (Gauges.identity n.key ≠ Gauges.identity k →
        ∀ f, (after f).filter (fun r => r.1 = k) = (before f).filter fun r => r.1 = k) ∧
      (Gauges.identity n.key = Gauges.identity k → ∀ f, (after f).filter (fun r => r.1 = k) =
        ((before f).filter fun r => r.1 = k).filterMap
          fun r => ((n.reading? f n.key).getD (some r.2)).map (k, ·)) := by
  refine ⟨?_, ?_, _, _, heard_page up notices, heard_page up (notices ++ [n]), fun ht f => ?_, fun ht f => ?_⟩
  · rw [heard_concat, hear_discoveries, Notice.discovery?_of_ne hk, Option.getD_none]
  · rw [heard_concat, hear_collectors, Notice.collector?_of_ne hk, Option.getD_none]
  · rw [rows_filter (heard_keyed up _), rows_filter (heard_keyed up _), heard_concat, hear_value?_of_ne ht]
  · rw [rows_filter (heard_keyed up _), rows_filter (heard_keyed up _), heard_concat, hear_value?_of_eq hk ht]
    cases (heard up notices).gauges.value? f k with
    | none => rfl
    | some x => rcases n.reading? f n.key with - | - | y <;> rfl

theorem hear_separate_episode : (Notice.collectorGone ⟨"shop", "main"⟩).key ≠ ⟨"shop", "pods"⟩ ∧
    Gauges.identity ⟨"shop", "main"⟩ ≠ Gauges.identity ⟨"shop", "pods"⟩ ∧
    (heard 1 (episode ++ [.collectorGone ⟨"shop", "main"⟩])).discoveries.get? ⟨"shop", "pods"⟩ =
      (heard 1 episode).discoveries.get? ⟨"shop", "pods"⟩ ∧
    ∃ before after, (heard 1 episode).render = page before 1 ∧
      (heard 1 (episode ++ [.collectorGone ⟨"shop", "main"⟩])).render = page after 1 ∧
      (after .discoveryReady).filter (fun r => r.1 = ⟨"shop", "pods"⟩) =
        (before .discoveryReady).filter fun r => r.1 = ⟨"shop", "pods"⟩ := by
  have apart : (Notice.collectorGone ⟨"shop", "main"⟩).key ≠ ⟨"shop", "pods"⟩ := by decide
  have texts : Gauges.identity ⟨"shop", "main"⟩ ≠ Gauges.identity ⟨"shop", "pods"⟩ := by decide
  obtain ⟨stored, -, before, after, hb, ha, hr, -⟩ := hear_separate episode 1 apart
  exact ⟨apart, texts, stored, before, after, hb, ha, hr texts .discoveryReady⟩

def lone : List Notice := [.collector ⟨"a", "bc"⟩ { Collector.Status.zero with sent := 1 }]

theorem neighbour_forgotten : (Notice.collectorGone ⟨"ab", "c"⟩).key ≠ ⟨"a", "bc"⟩ ∧
    (rowText .collectorSent (⟨"a", "bc"⟩, word 1)).toList <:+: (heard 0 lone).render.toList ∧
    ((heard 0 (lone ++ [.collectorGone ⟨"ab", "c"⟩])).collectors.get? ⟨"a", "bc"⟩).isSome = true ∧
    (heard 0 (lone ++ [.collectorGone ⟨"ab", "c"⟩])).render = page (fun _ => []) 0 := by
  refine ⟨by decide, ?_, by decide +kernel, ?_⟩
  · rw [heard_page]
    exact row_shown ((mem_rows (heard_keyed 0 lone)).mpr rfl) 0
  · have rows : (heard 0 (lone ++ [.collectorGone ⟨"ab", "c"⟩])).rows = fun _ => [] := by
      funext f
      have none : ((heard 0 (lone ++ [.collectorGone ⟨"ab", "c"⟩])).gauges.family f).values = [] := by
        cases f <;> rfl
      rw [Board.rows, none, List.mergeSort_nil, List.map_nil]
    rw [heard_page, rows]

end ScrapeRelay.Status
