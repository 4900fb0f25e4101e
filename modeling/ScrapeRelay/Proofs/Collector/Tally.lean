import Mathlib.Algebra.BigOperators.Group.List.Basic
import ScrapeRelay.Collector.Pipeline

/-!
What is counted for metrics. Each is counted once: as filtered, as an error or as sent. Payloads are offered in the
order of their metrics, and those that the sink accepts are the ones that are sent.
-/

namespace ScrapeRelay

structure Collector.Sums where
  sent : Nat
  errors : Nat
  filtered : Nat
  deriving DecidableEq

namespace Collector

namespace Sums

@[ext] theorem ext {x y : Sums} (hs : x.sent = y.sent) (he : x.errors = y.errors) (hf : x.filtered = y.filtered) :
    x = y := by
  cases x
  cases y
  simp_all

instance : Zero Sums := ⟨⟨0, 0, 0⟩⟩

instance : Add Sums := ⟨fun x y => ⟨x.sent + y.sent, x.errors + y.errors, x.filtered + y.filtered⟩⟩

@[simp] theorem sent_zero : (0 : Sums).sent = 0 := rfl
@[simp] theorem errors_zero : (0 : Sums).errors = 0 := rfl
@[simp] theorem filtered_zero : (0 : Sums).filtered = 0 := rfl
@[simp] theorem sent_add (x y : Sums) : (x + y).sent = x.sent + y.sent := rfl
@[simp] theorem errors_add (x y : Sums) : (x + y).errors = x.errors + y.errors := rfl
@[simp] theorem filtered_add (x y : Sums) : (x + y).filtered = x.filtered + y.filtered := rfl

instance : AddCommMonoid Sums where
  add_assoc x y z := by ext <;> simp [Nat.add_assoc]
  zero_add x := by ext <;> simp
  add_zero x := by ext <;> simp
  add_comm x y := by ext <;> simp [Nat.add_comm]
  nsmul := nsmulRec

def all (x : Sums) : Nat := x.sent + x.errors + x.filtered

end Sums

/-- What is counted goes round after `2 ^ 64 - 1`; what is sent is collected, too. -/
def Status.count (s : Status) (x : Sums) : Status :=
  { s with
    sent := s.sent + .ofNat x.sent
    errors := s.errors + .ofNat x.errors
    filtered := s.filtered + .ofNat x.filtered
    collected := s.collected + .ofNat x.sent }

theorem Status.count_zero (s : Status) : s.count 0 = s := by simp [count]

theorem Status.count_add (s : Status) (x y : Sums) : (s.count x).count y = s.count (x + y) := by
  simp [count, UInt64.ofNat_add, UInt64.add_assoc]

theorem Status.count_error (s : Status) : s.count ⟨0, 1, 0⟩ = s.countError := by simp [count, countError]

namespace Pipeline

def sums (p : Pipeline) (a : Metric × Bool) : Sums :=
  match p.fate a.1 with
  | .filtered _ => ⟨0, 0, 1⟩
  | .refused _ => ⟨0, 1, 0⟩
  | .payload _ => if a.2 then ⟨1, 0, 0⟩ else ⟨0, 1, 0⟩

def offer? (p : Pipeline) (a : Metric × Bool) : Option (String × Bool) :=
  match p.fate a.1 with
  | .payload text => some (text, a.2)
  | _ => none

def tally (p : Pipeline) (answers : List (Metric × Bool)) : Sums := (answers.map p.sums).sum

def offers (p : Pipeline) (answers : List (Metric × Bool)) : List (String × Bool) := answers.filterMap p.offer?

variable {p : Pipeline}

theorem tally_cons (a : Metric × Bool) (answers : List (Metric × Bool)) :
    p.tally (a :: answers) = p.sums a + p.tally answers := List.sum_cons

theorem offers_cons (a : Metric × Bool) (answers : List (Metric × Bool)) :
    p.offers (a :: answers) = (p.offer? a).toList ++ p.offers answers := by
  rw [offers, List.filterMap_cons]
  cases p.offer? a <;> rfl

theorem tally_append (answers more : List (Metric × Bool)) :
    p.tally (answers ++ more) = p.tally answers + p.tally more := by
  simp only [tally, List.map_append, List.sum_append]

theorem offers_append (answers more : List (Metric × Bool)) :
    p.offers (answers ++ more) = p.offers answers ++ p.offers more := List.filterMap_append

theorem payloads_cons (m : Metric) (ms : List Metric) : p.payloads (m :: ms) = p.payloads [m] ++ p.payloads ms :=
  List.filterMap_append (l := [m])

theorem tally_all (answers : List (Metric × Bool)) : (p.tally answers).all = answers.length := by
  induction answers with
  | nil => rfl
  | cons a rest ih =>
    have once : (p.sums a).all = 1 := by
      rw [sums]
      split
      · rfl
      · rfl
      · split <;> rfl
    simp only [Sums.all] at once ih
    simp only [tally_cons, Sums.all, Sums.sent_add, Sums.errors_add, Sums.filtered_add, List.length_cons]
    omega

theorem tally_sent (answers : List (Metric × Bool)) :
    (p.tally answers).sent = (p.offers answers).countP (·.2) := by
  induction answers with
  | nil => rfl
  | cons a rest ih =>
    rw [tally_cons, Sums.sent_add, ih, offers_cons, List.countP_append, sums, offer?]
    cases p.fate a.1 with
    | filtered name | refused problem => rfl
    | payload text => cases a.2 <;> rfl

theorem tally_filtered (answers : List (Metric × Bool)) : (p.tally answers).filtered =
    (answers.map (·.1)).countP fun m => (Filter.firstMatch p.filters m).isSome := by
  induction answers with
  | nil => rfl
  | cons a rest ih =>
    rw [tally_cons, Sums.filtered_add, ih, List.map_cons, List.countP_cons, Nat.add_comm, sums, fate]
    cases Filter.firstMatch p.filters a.1 with
    | some name => rfl
    | none =>
      cases p.encoder.encode a.1 with
      | error problem => rfl
      | ok text => cases a.2 <;> rfl

def isRefused (p : Pipeline) (m : Metric) : Bool :=
  match p.fate m with
  | .refused _ => true
  | _ => false

theorem tally_errors (answers : List (Metric × Bool)) : (p.tally answers).errors =
    (answers.map (·.1)).countP p.isRefused + (p.offers answers).countP (!·.2) := by
  induction answers with
  | nil => rfl
  | cons a rest ih =>
    rw [tally_cons, Sums.errors_add, ih, offers_cons, List.countP_append, List.map_cons, List.countP_cons,
      sums, offer?, isRefused]
    cases p.fate a.1 with
    | filtered name => simp
    | refused problem =>
      simp
      omega
    | payload text =>
      cases a.2
      · simp
        omega
      · simp

theorem offers_payloads (answers : List (Metric × Bool)) :
    (p.offers answers).map (·.1) = p.payloads (answers.map (·.1)) := by
  rw [offers, payloads, List.map_filterMap, List.filterMap_map]
  congr 1
  funext a
  simp only [offer?, Function.comp]
  cases p.fate a.1 <;> rfl

/-- What a target comes to: a scrape that failed is one error; of a page, every metric is counted once and the
payloads are offered in the order of their metrics. -/
inductive Accounts (p : Pipeline) : Except Failure (List Metric) → Sums → List (String × Bool) → Prop
  | failure (f : Failure) : Accounts p (.error f) ⟨0, 1, 0⟩ []
  | page {ms : List Metric} {x : Sums} {offers : List (String × Bool)} (hall : x.all = ms.length)
      (hoffers : offers.map (·.1) = p.payloads ms) (hsent : x.sent = offers.countP (·.2))
      (herrors : x.errors = ms.countP p.isRefused + offers.countP (!·.2))
      (hfiltered : x.filtered = ms.countP fun m => (Filter.firstMatch p.filters m).isSome) :
      Accounts p (.ok ms) x offers

theorem Accounts.sent {outcome : Except Failure (List Metric)} {x : Sums} {offers : List (String × Bool)}
    (h : p.Accounts outcome x offers) : x.sent = offers.countP (·.2) := by
  cases h with
  | failure f => rfl
  | page hall hoffers hsent => exact hsent

theorem tally_accounts {answers : List (Metric × Bool)} {ms : List Metric} (h : answers.map (·.1) = ms) :
    p.Accounts (.ok ms) (p.tally answers) (p.offers answers) := by
  subst h
  refine .page ?_ (offers_payloads answers) (tally_sent answers) (tally_errors answers) (tally_filtered answers)
  rw [tally_all, List.length_map]

end Pipeline

end Collector

end ScrapeRelay
