import ScrapeRelay.Collector.Pipeline
import ScrapeRelay.Proofs.Json.Flat
import ScrapeRelay.Sink.Lines

/-!
Many workers write to one stream. Each puts its payloads into lines, one after the other, and has the lock of
the stream from the first byte of a line to the last; the stream takes as many bytes at a time as it likes. In
the end it has the lines of all workers in an order that keeps the order of each, and it can be cut into the
payloads again, since no payload has a line feed in it.
-/

namespace ScrapeRelay.Sink

def newline : UInt8 := 10

def bytes (payload : String) : List UInt8 := payload.toUTF8.data.toList

def line (payload : String) : List UInt8 := bytes payload ++ [newline]

/-- A worker with the metrics that it has still to look at and the payload that it waits to send. -/
structure Shipper where
  pipeline : Collector.Pipeline
  metrics : List Metric
  payload? : Option String

structure Shared where
  shippers : List Shipper
  /-- The worker that has the lock, with what it has still to write of its line. -/
  holder : Option (Nat × List UInt8)
  written : List UInt8

inductive Turn where
  | look (worker : Nat)
  | lock (worker : Nat)
  | write (count : Nat)
  | unlock

namespace Shared

def start (jobs : List (Collector.Pipeline × List Metric)) : Shared :=
  ⟨jobs.map fun j => ⟨j.1, j.2, none⟩, none, []⟩

/-- A worker that writes a line looks at nothing else meanwhile. -/
def turn (s : Shared) : Turn → Option Shared
  | .look w =>
    match s.shippers[w]? with
    | some ⟨p, m :: ms, none⟩ =>
      if s.holder.map (·.1) = some w then none
      else some { s with shippers := s.shippers.set w ⟨p, ms, (p.payloads [m]).head?⟩ }
    | _ => none
  | .lock w =>
    match s.holder, s.shippers[w]? with
    | none, some ⟨p, ms, some payload⟩ =>
      some { s with shippers := s.shippers.set w ⟨p, ms, none⟩, holder := some (w, line payload) }
    | _, _ => none
  | .write n =>
    match s.holder with
    | some (w, rest) =>
      if 0 < n ∧ n ≤ rest.length then
        some { s with holder := some (w, rest.drop n), written := s.written ++ rest.take n }
      else none
    | none => none
  | .unlock =>
    match s.holder with
    | some (_, []) => some { s with holder := none }
    | _ => none

end Shared

/-! Bytes of payloads -/

theorem bytes_eq (payload : String) : bytes payload = payload.toList.flatMap String.utf8EncodeChar := by
  rw [bytes, String.toUTF8_eq_toByteArray]
  conv =>
    lhs
    rw [← String.ofList_toList (s := payload), String.toByteArray_ofList, List.utf8Encode, List.data_toByteArray]

theorem bytes_append (s t : String) : bytes (s ++ t) = bytes s ++ bytes t := by
  rw [bytes_eq, bytes_eq, bytes_eq, String.toList_append, List.flatMap_append]

theorem newline_mem_encoded (c : Char) : newline ∈ String.utf8EncodeChar c ↔ c = '\n' := by
  have hc : c = '\n' ↔ c.val.toNat = 10 := by
    rw [← Char.val_inj, ← UInt32.toNat_inj]
    rfl
  rw [hc, newline, String.utf8EncodeChar]
  split
  · simp only [List.mem_singleton, ← UInt8.toNat_inj, UInt8.toNat_ofNat', UInt8.toNat_ofNat]
    omega
  · have large (n : Nat) (h : 128 ≤ n) (hn : n < 256) : (10 : UInt8) ≠ UInt8.ofNat n := by
      simp only [ne_eq, ← UInt8.toNat_inj, UInt8.toNat_ofNat', UInt8.toNat_ofNat]
      omega
    refine iff_of_false (fun hm => ?_) (by omega)
    split at hm
    · simp only [List.mem_cons, List.not_mem_nil, or_false] at hm
      rcases hm with hm | hm <;> exact large _ (by omega) (by omega) hm
    · split at hm
      · simp only [List.mem_cons, List.not_mem_nil, or_false] at hm
        rcases hm with hm | hm | hm <;> exact large _ (by omega) (by omega) hm
      · simp only [List.mem_cons, List.not_mem_nil, or_false] at hm
        rcases hm with hm | hm | hm | hm <;> exact large _ (by omega) (by omega) hm

theorem newline_mem_bytes (payload : String) : newline ∈ bytes payload ↔ '\n' ∈ payload.toList := by
  simp [bytes_eq, List.mem_flatMap, newline_mem_encoded]

/-! One turn -/

def Shipper.pending (x : Shipper) : List String := x.payload?.toList ++ x.pipeline.payloads x.metrics

/-- Turns that are left to it at most: one for every metric and, for every payload, one each to get the lock and
to let it go and one for every byte. -/
def Shipper.left (x : Shipper) : Nat :=
  (x.pending.map fun payload => (line payload).length + 2).sum + x.metrics.length

namespace Shared

variable {jobs : List (Collector.Pipeline × List Metric)} {s s' : Shared} {t : Turn}
  {order : List (Nat × String)}

def pending (s : Shared) (w : Nat) : List String := ((s.shippers[w]?).map Shipper.pending).getD []

def rest (s : Shared) : List UInt8 := (s.holder.map (·.2)).getD []

inductive Turned (s : Shared) : Shared → Prop
  | looked (w : Nat) (p : Collector.Pipeline) (m : Metric) (ms : List Metric)
      (hx : s.shippers[w]? = some ⟨p, m :: ms, none⟩) :
      Turned s { s with shippers := s.shippers.set w ⟨p, ms, (p.payloads [m]).head?⟩ }
  | locked (w : Nat) (p : Collector.Pipeline) (ms : List Metric) (payload : String) (hs : s.holder = none)
      (hx : s.shippers[w]? = some ⟨p, ms, some payload⟩) :
      Turned s { s with shippers := s.shippers.set w ⟨p, ms, none⟩, holder := some (w, line payload) }
  | wrote (w : Nat) (part rest : List UInt8) (hp : part ≠ []) (hs : s.holder = some (w, part ++ rest)) :
      Turned s { s with holder := some (w, rest), written := s.written ++ part }
  | unlocked (w : Nat) (hs : s.holder = some (w, [])) : Turned s { s with holder := none }

theorem turned (h : s.turn t = some s') : s.Turned s' := by
  cases t with
  | look w =>
    simp only [turn] at h
    split at h
    case h_1 p m ms hx =>
      split at h
      · simp at h
      · obtain rfl := Option.some.inj h
        exact .looked w p m ms hx
    case h_2 => simp at h
  | lock w =>
    simp only [turn] at h
    split at h
    case h_1 p ms payload hs hx =>
      obtain rfl := Option.some.inj h
      exact .locked w p ms payload hs hx
    case h_2 => simp at h
  | write n =>
    simp only [turn] at h
    split at h
    case h_1 w rest hs =>
      split at h
      case isTrue hn =>
        obtain rfl := Option.some.inj h
        have hp : rest.take n ≠ [] := by
          rw [← List.length_pos_iff, List.length_take]
          omega
        exact .wrote w (rest.take n) (rest.drop n) hp (by rw [hs, List.take_append_drop])
      case isFalse => simp at h
    case h_2 => simp at h
  | unlock =>
    simp only [turn] at h
    split at h
    case h_1 w hs =>
      obtain rfl := Option.some.inj h
      exact .unlocked w hs
    case h_2 => simp at h

/-! The order of the lines -/

def sent (jobs : List (Collector.Pipeline × List Metric)) (w : Nat) : List String :=
  ((jobs[w]?).map fun j => j.1.payloads j.2).getD []

def own (w : Nat) (order : List (Nat × String)) : List String := (order.filter (·.1 = w)).map (·.2)

/-- A stream with lines in an order, the last of them perhaps not written to its end, and the workers with what
remains of their payloads. -/
structure Framed (jobs : List (Collector.Pipeline × List Metric)) (order : List (Nat × String))
    (s : Shared) : Prop where
  shares : ∀ w, own w order ++ s.pending w = sent jobs w
  lines : s.written ++ s.rest = order.flatMap fun e => line e.2

theorem own_concat (w w' : Nat) (payload : String) (order : List (Nat × String)) :
    own w (order ++ [(w', payload)]) = own w order ++ if w' = w then [payload] else [] := by
  by_cases h : w' = w <;> simp [own, h]

theorem payloads_cons (p : Collector.Pipeline) (m : Metric) (ms : List Metric) :
    (p.payloads [m]).head?.toList ++ p.payloads ms = p.payloads (m :: ms) := by
  simp only [Collector.Pipeline.payloads, List.filterMap_cons]
  cases p.fate m <;> rfl

theorem pending_set {x x' : Shipper} {w : Nat} (hx : s.shippers[w]? = some x) (holder : Option (Nat × List UInt8))
    (written : List UInt8) (w' : Nat) : (Shared.mk (s.shippers.set w x') holder written).pending w' =
      if w = w' then x'.pending else s.pending w' := by
  obtain ⟨hw, -⟩ := List.getElem?_eq_some_iff.mp hx
  by_cases h : w = w'
  · subst h
    simp [pending, hw]
  · simp [pending, h]

theorem framed_start (jobs : List (Collector.Pipeline × List Metric)) : Framed jobs [] (start jobs) where
  shares w := by
    simp only [own, pending, sent, start, List.getElem?_map]
    cases jobs[w]? <;> rfl
  lines := rfl

/-- A line gets its place in the order when its worker gets the lock. -/
theorem Framed.turned (h : Framed jobs order s) (ht : s.Turned s') : ∃ order', Framed jobs order' s' := by
  cases ht with
  | looked w p m ms hx =>
    refine ⟨order, fun w' => ?_, h.lines⟩
    rw [← h.shares w', pending_set hx]
    split
    case isTrue hw =>
      subst hw
      simp [pending, hx, Shipper.pending, payloads_cons]
    case isFalse => rfl
  | locked w p ms payload hs hx =>
    refine ⟨order ++ [(w, payload)], fun w' => ?_, ?_⟩
    · rw [← h.shares w', pending_set hx, own_concat]
      by_cases hw : w = w'
      · subst hw
        simp [pending, hx, Shipper.pending]
      · simp [hw]
    · have written : s.written = order.flatMap fun e => line e.2 := by simpa [rest, hs] using h.lines
      simp [rest, written]
  | wrote w part rest hp hs =>
    refine ⟨order, h.shares, ?_⟩
    simpa [Shared.rest, hs] using h.lines
  | unlocked w hs =>
    refine ⟨order, h.shares, ?_⟩
    simpa [rest, hs] using h.lines

theorem framed_run {turns : List Turn} (h : Framed jobs order s) (hr : turns.foldlM turn s = some s') :
    ∃ order', Framed jobs order' s' := by
  induction turns generalizing s order with
  | nil =>
    obtain rfl := Option.some.inj hr
    exact ⟨order, h⟩
  | cons t turns ih =>
    rw [List.foldlM_cons] at hr
    obtain ⟨s₁, ht, hr⟩ := Option.bind_eq_some_iff.mp hr
    obtain ⟨order₁, h₁⟩ := h.turned (Shared.turned ht)
    exact ih h₁ hr

/-! The end of a run -/

def left (s : Shared) : Nat := (s.shippers.map Shipper.left).sum + (s.holder.map (·.2.length + 1)).getD 0

theorem sum_set {x : Shipper} {l : List Shipper} {w : Nat} (hx : l[w]? = some x) (x' : Shipper) :
    ((l.set w x').map Shipper.left).sum + x.left = (l.map Shipper.left).sum + x'.left := by
  induction l generalizing w with
  | nil => simp at hx
  | cons y l ih =>
    cases w with
    | zero =>
      obtain rfl : y = x := by simpa using hx
      simp only [List.set_cons_zero, List.map_cons, List.sum_cons]
      omega
    | succ w =>
      have := ih (by simpa using hx)
      simp only [List.set_cons_succ, List.map_cons, List.sum_cons]
      omega

theorem Turned.left (h : s.Turned s') : s'.left < s.left := by
  cases h with
  | looked w p m ms hx =>
    have total := sum_set hx ⟨p, ms, (p.payloads [m]).head?⟩
    simp only [Shipper.left, Shipper.pending, payloads_cons, Option.toList_none, List.nil_append,
      List.length_cons] at total
    simp only [Shared.left]
    omega
  | locked w p ms payload hs hx =>
    have total := sum_set hx ⟨p, ms, none⟩
    simp only [Shipper.left, Shipper.pending, Option.toList_none, Option.toList_some, List.nil_append,
      List.cons_append, List.map_cons, List.sum_cons] at total
    simp only [Shared.left, hs, Option.map_none, Option.map_some, Option.getD_none, Option.getD_some]
    omega
  | wrote w part rest hp hs =>
    have := List.length_pos_iff.mpr hp
    simp only [Shared.left, hs, Option.map_some, Option.getD_some, List.length_append]
    omega
  | unlocked w hs =>
    simp only [Shared.left, hs, Option.map_none, Option.map_some, Option.getD_none, Option.getD_some]
    omega

theorem run_left {turns : List Turn} (hr : turns.foldlM turn s = some s') : turns.length + s'.left ≤ s.left := by
  induction turns generalizing s with
  | nil =>
    obtain rfl := Option.some.inj hr
    simp
  | cons t turns ih =>
    rw [List.foldlM_cons] at hr
    obtain ⟨s₁, ht, hr⟩ := Option.bind_eq_some_iff.mp hr
    have := (Shared.turned ht).left
    have := ih hr
    rw [List.length_cons]
    omega

theorem at_rest (h : ∀ t, s.turn t = none) : s.holder = none ∧ ∀ w, s.pending w = [] := by
  have free : s.holder = none := by
    cases hs : s.holder with
    | none => rfl
    | some held =>
      obtain ⟨w, rest⟩ := held
      cases rest with
      | nil => simpa [turn, hs] using h .unlock
      | cons b rest => simpa [turn, hs] using h (.write 1)
  refine ⟨free, fun w => ?_⟩
  rw [pending]
  match hx : s.shippers[w]? with
  | none => rfl
  | some ⟨p, [], none⟩ => rfl
  | some ⟨p, ms, some payload⟩ => simpa [turn, free, hx] using h (.lock w)
  | some ⟨p, m :: ms, none⟩ => simpa [turn, free, hx] using h (.look w)

/-! Cutting the stream into lines -/

theorem splitOn_lines {payloads : List String} (h : ∀ payload ∈ payloads, newline ∉ bytes payload) :
    (payloads.flatMap line).splitOn newline = payloads.map bytes ++ [[]] := by
  induction payloads with
  | nil => rfl
  | cons payload payloads ih =>
    obtain ⟨hp, hrest⟩ := List.forall_mem_cons.mp h
    have clear (b : UInt8) (hb : b ∈ bytes payload) : (b == newline) = false :=
      beq_false_of_ne fun e => hp (e ▸ hb)
    have cut := List.splitOnP_append_cons_of_forall_mem clear newline (beq_self_eq_true _) (payloads.flatMap line)
    rw [List.flatMap_cons, line, List.append_assoc, List.singleton_append]
    exact cut.trans (congrArg (bytes payload :: ·) (ih hrest))

theorem encode_newline {e : Encoder} {m : Metric} {text : String} (h : e.encode m = .ok text) :
    newline ∉ bytes text := by
  rw [newline_mem_bytes]
  rw [Encoder.encode] at h
  split at h
  · simp at h
  · obtain rfl := Except.ok.inj h
    rw [Json.text, String.toList_ofList]
    exact (Json.write_flat _).newline

theorem payloads_newline (p : Collector.Pipeline) (ms : List Metric) :
    ∀ payload ∈ p.payloads ms, newline ∉ bytes payload := by
  intro payload hp
  obtain ⟨m, -, hm⟩ := List.mem_filterMap.mp hp
  rw [Collector.Pipeline.fate] at hm
  cases hf : Filter.firstMatch p.filters m with
  | some name => simp [hf] at hm
  | none =>
    cases he : p.encoder.encode m with
    | error e => simp [hf, he] at hm
    | ok text =>
      obtain rfl : text = payload := by simpa [hf, he] using hm
      exact encode_newline he

theorem sent_newline (jobs : List (Collector.Pipeline × List Metric)) (w : Nat) :
    ∀ payload ∈ sent jobs w, newline ∉ bytes payload := by
  rw [sent]
  cases jobs[w]? with
  | none => simp
  | some j => exact payloads_newline j.1 j.2

theorem mem_own {w : Nat} {payload : String} : payload ∈ own w order ↔ (w, payload) ∈ order := by
  simp [own]

theorem send_all (payloads : List String) (before : String) : ∃ text,
    payloads.foldlM Lines.send ⟨before, true⟩ = .ok ⟨text, true⟩ ∧
    bytes text = bytes before ++ payloads.flatMap line := by
  induction payloads generalizing before with
  | nil => exact ⟨before, rfl, by simp⟩
  | cons payload payloads ih =>
    obtain ⟨text, hs, ht⟩ := ih (before ++ payload ++ "\n")
    refine ⟨text, hs, ?_⟩
    have feed : bytes "\n" = [newline] := by decide +kernel
    simp [ht, bytes_append, line, feed]

/-- However the turns of many workers come after each other, the stream has the lines of all of them in an order
that is a merge of theirs, and when no line is under way it is cut at its line feeds into just the payloads.
Every run ends, and then everything is written. -/
theorem framed {turns : List Turn} (hr : turns.foldlM turn (start jobs) = some s) :
    turns.length ≤ (start jobs).left ∧ (∀ w, ∀ payload ∈ sent jobs w, newline ∉ bytes payload) ∧
    ∃ order : List (Nat × String), s.written <+: order.flatMap (fun e => line e.2) ∧
    (∀ w, own w order <+: sent jobs w) ∧
      (s.holder = none → s.written = order.flatMap (fun e => line e.2) ∧
        s.written.splitOn newline = (order.map fun e => bytes e.2) ++ [[]] ∧
        ∃ text, (order.map (·.2)).foldlM Lines.send Lines.start = .ok ⟨text, true⟩ ∧
        bytes text = s.written) ∧
      ((∀ t, s.turn t = none) → s.holder = none ∧ ∀ w, own w order = sent jobs w) := by
  obtain ⟨order, h⟩ := framed_run (framed_start jobs) hr
  have share (w : Nat) : own w order <+: sent jobs w := ⟨s.pending w, h.shares w⟩
  have clear : ∀ payload ∈ order.map (·.2), newline ∉ bytes payload := by
    intro payload hp
    obtain ⟨e, he, rfl⟩ := List.mem_map.mp hp
    exact sent_newline jobs e.1 _ ((share e.1).subset (mem_own.mpr he))
  refine ⟨le_trans (Nat.le_add_right _ _) (run_left hr), sent_newline jobs, order, ⟨s.rest, h.lines⟩, share,
    fun free => ?_, fun ended => ?_⟩
  · have whole : s.written = (order.map (·.2)).flatMap line := by
      simpa [rest, free, List.flatMap_map] using h.lines
    obtain ⟨text, hs, ht⟩ := send_all (order.map (·.2)) ""
    refine ⟨by simpa [rest, free] using h.lines, ?_, text, hs, ?_⟩
    · rw [whole, splitOn_lines clear, List.map_map]
      rfl
    · rw [ht, whole]
      rfl
  · obtain ⟨free, done⟩ := at_rest ended
    refine ⟨free, fun w => ?_⟩
    rw [← h.shares w, done w, List.append_nil]

end Shared

def plain : Collector.Pipeline := ⟨⟨false, [], []⟩, [], .json⟩

def pair : List (Collector.Pipeline × List Metric) :=
  [(plain, [⟨"up", .ofList [("gauge", 1)], .ofList [("job", "a\nb")], ⟨0, 0⟩, .gauge⟩]),
    (plain, [⟨"\n", .empty, .empty, ⟨0, 0⟩, .gauge⟩])]

def intertwined : List Turn :=
  [.look 1, .lock 1, .write 9, .look 0, .write 78, .unlock, .lock 0, .write 110, .unlock]

theorem framed_intertwined : ∃ s, intertwined.foldlM Shared.turn (Shared.start pair) = some s ∧
    ∃ order : List (Nat × String), order.length = 2 ∧ (∀ w, Shared.own w order <+: Shared.sent pair w) ∧
      s.written.splitOn newline = (order.map fun e => bytes e.2) ++ [[]] := by
  have done : (intertwined.foldlM Shared.turn (Shared.start pair)).map
      (fun s => (s.holder, (s.written.splitOn newline).length)) = some (none, 3) := by decide +kernel
  obtain ⟨s, hs, hd⟩ := Option.map_eq_some_iff.mp done
  obtain ⟨free, count⟩ := Prod.mk.inj hd
  obtain ⟨-, -, order, -, shares, free_split, -⟩ := Shared.framed hs
  obtain ⟨-, cut, -⟩ := free_split free
  refine ⟨s, hs, order, ?_, shares, cut⟩
  rw [cut, List.length_append, List.length_map, List.length_singleton] at count
  omega

end ScrapeRelay.Sink
