import Mathlib.Data.List.Basic
import Mathlib.Data.List.Perm.Basic
import SerialContract.Proofs.Link.Discovery

/-!
# Candidates in their turn

Which candidate a search comes to, whatever the others do: they may fail to open, stay silent or send anything else.
The order of the trials is told apart from how it is made, and so is what it means to respond. A candidate that has
less time than others is one whose line fails when its time is over.
-/

namespace SerialContract

namespace Discovery

/-! ## The order of the trials -/

/-- Items dealt into those with a property and the others, both in their order. -/
structure Dealt {α : Type} (p : α → Bool) (items firsts others : List α) : Prop where
  perm : (firsts ++ others).Perm items
  firsts_sublist : firsts.Sublist items
  others_sublist : others.Sublist items
  firsts_have : ∀ item ∈ firsts, p item = true
  others_lack : ∀ item ∈ others, p item = false

section Dealt

variable {α : Type} {p : α → Bool} {items firsts others : List α}

theorem dealt_filter (p : α → Bool) (items : List α) : Dealt p items (items.filter p) (items.filter (!p ·)) where
  perm := List.filter_append_perm p items
  firsts_sublist := List.filter_sublist
  others_sublist := List.filter_sublist
  firsts_have _ hitem := List.of_mem_filter hitem
  others_lack _ hitem := by simpa using List.of_mem_filter hitem

/-- A part that keeps its order and misses nothing is what a filter leaves. -/
theorem eq_filter_of_perm {q : α → Bool} {part rest : List α} (hperm : (part ++ rest).Perm items)
    (hpart : ∀ item ∈ part, q item = true) (hrest : ∀ item ∈ rest, ¬ q item = true) (hsublist : part.Sublist items) :
    part = items.filter q := by
  have hself : part.filter q = part := List.filter_eq_self.2 hpart
  have hnone : rest.filter q = [] := List.filter_eq_nil_iff.2 hrest
  have hlength := (hperm.filter q).length_eq
  rw [List.filter_append, hself, hnone, List.append_nil] at hlength
  have hfiltered := hsublist.filter q
  rw [hself] at hfiltered
  exact hfiltered.eq_of_length hlength

/-- There is one way to deal. -/
theorem Dealt.eq_filter (h : Dealt p items firsts others) :
    firsts = items.filter p ∧ others = items.filter (!p ·) := by
  refine ⟨eq_filter_of_perm h.perm h.firsts_have ?_ h.firsts_sublist,
    eq_filter_of_perm (List.perm_append_comm.trans h.perm) ?_ ?_ h.others_sublist⟩
  · exact fun item hitem => by simp [h.others_lack item hitem]
  · exact fun item hitem => by simp [h.others_lack item hitem]
  · exact fun item hitem => by simp [h.firsts_have item hitem]

end Dealt

variable {σ : Type}

/-- Candidates in the order in which they are tried: as they are given if no identifier is looked for, else those that
show the identifier before the others. -/
inductive TrialOrder (identifier : String) (candidates : List (Candidate σ)) : List (Candidate σ) → Prop
  | given (any : identifier = "") : TrialOrder identifier candidates candidates
  | preferred {firsts others : List (Candidate σ)} (one : identifier ≠ "")
      (dealt : Dealt (·.identifier == some identifier) candidates firsts others) :
      TrialOrder identifier candidates (firsts ++ others)

variable {identifier : String} {candidates order : List (Candidate σ)}

theorem TrialOrder.perm (h : TrialOrder identifier candidates order) : order.Perm candidates := by
  cases h with
  | given _ => exact .refl candidates
  | preferred _ dealt => exact dealt.perm

theorem prioritize_of_ne (h : identifier ≠ "") :
    prioritize candidates identifier = candidates.filter (·.identifier == some identifier) ++
      candidates.filter fun candidate => !(candidate.identifier == some identifier) := by
  rw [prioritize, if_neg (by simpa using h)]
  rfl

theorem trialOrder_iff : TrialOrder identifier candidates order ↔ order = prioritize candidates identifier := by
  constructor
  · intro h
    cases h with
    | given any =>
        subst any
        rfl
    | preferred one dealt =>
        obtain ⟨rfl, rfl⟩ := dealt.eq_filter
        exact (prioritize_of_ne one).symm
  · rintro rfl
    by_cases hany : identifier = ""
    · subst hany
      exact .given rfl
    · rw [prioritize_of_ne hany]
      exact .preferred hany (dealt_filter _ candidates)

/-! ## What it means to respond -/

/-- A session that is answered by a number of pings, the last of which is the first to be answered. The answers to the
others are garbage. -/
inductive Pinged (line : Line σ) : Nat → Session σ → Session σ → Prop
  | answered {s after : Session σ} : s.ping line = (.ok (), after) → Pinged line 1 s after
  | garbage {s next after : Session σ} {fault : LinkError} {count : Nat} : s.ping line = (.error fault, next) →
      isGarbage fault = true → Pinged line count next after → Pinged line (count + 1) s after

variable {line : Line σ} {channel : Channel} {pings : Nat} {s after : Session σ}

theorem exists_pinged_iff : pingUntilAnswered line pings s = some after ↔ ∃ count ≤ pings, Pinged line count s after := by
  fun_induction pingUntilAnswered line pings s with
  | case1 s =>
      refine ⟨fun h => (by cases h), ?_⟩
      rintro ⟨count, hcount, hpinged⟩
      cases hpinged <;> cases hcount
  | case2 pings s next hping =>
      constructor
      · rintro h
        cases h
        exact ⟨1, Nat.succ_le_succ (Nat.zero_le pings), .answered hping⟩
      · rintro ⟨count, _, hpinged⟩
        cases hpinged with
        | answered hanswered =>
            cases hping.symm.trans hanswered
            rfl
        | garbage hfault => cases hping.symm.trans hfault
  | case3 pings s fault next hping hgarbage ih =>
      rw [ih]
      constructor
      · rintro ⟨count, hcount, hpinged⟩
        exact ⟨count + 1, Nat.succ_le_succ hcount, .garbage hping hgarbage hpinged⟩
      · rintro ⟨count, hcount, hpinged⟩
        cases hpinged with
        | answered hanswered => cases hping.symm.trans hanswered
        | garbage hfault _ hpinged =>
            cases hping.symm.trans hfault
            exact ⟨_, Nat.le_of_succ_le_succ hcount, hpinged⟩
  | case4 pings s fault next hping hgarbage =>
      refine ⟨fun h => (by cases h), ?_⟩
      rintro ⟨count, _, hpinged⟩
      cases hpinged with
      | answered hanswered => cases hping.symm.trans hanswered
      | garbage hfault hyes _ =>
          cases hping.symm.trans hfault
          exact absurd hyes hgarbage

/-- A candidate that can be opened and answers one of the pings. -/
def Responds (line : Line σ) (channel : Channel) (pings : Nat) (candidate : Candidate σ) (session : Session σ) : Prop :=
  ∃ state, candidate.connect channel = .ok state ∧
    ∃ count ≤ pings, Pinged line count (.start state .text []) session

variable {candidate : Candidate σ}

theorem connect_eq_some_iff : connect line channel pings candidate = some s ↔ Responds line channel pings candidate s := by
  rw [connect, Responds]
  split
  · next state hconnect =>
    rw [exists_pinged_iff]
    constructor
    · exact fun h => ⟨state, hconnect, h⟩
    · rintro ⟨other, hother, h⟩
      cases hconnect.symm.trans hother
      exact h
  · next fault hconnect =>
    refine ⟨fun h => (by cases h), ?_⟩
    rintro ⟨other, hother, _⟩
    cases hconnect.symm.trans hother

theorem connect_eq_none_iff :
    connect line channel pings candidate = none ↔ ∀ session, ¬ Responds line channel pings candidate session := by
  simp only [Option.eq_none_iff_forall_ne_some, ne_eq, connect_eq_some_iff]

/-! ## The search -/

variable {total : Nat}

theorem search_eq (line : Line σ) (channel : Channel) (pings total : Nat) (order : List (Candidate σ)) :
    (∃ before winner rest session, order = before ++ winner :: rest ∧
      (∀ candidate ∈ before, ∀ session, ¬ Responds line channel pings candidate session) ∧
      Responds line channel pings winner session ∧
      search line channel pings total order = ⟨before ++ [winner], .ok (winner, session)⟩) ∨
    (∀ candidate ∈ order, ∀ session, ¬ Responds line channel pings candidate session) ∧
      search line channel pings total order = ⟨order, .error (.noDevice total)⟩ := by
  fun_induction search line channel pings total order with
  | case1 => exact .inr ⟨List.forall_mem_nil _, rfl⟩
  | case2 candidate rest session hconnect =>
      exact .inl ⟨[], candidate, rest, session, rfl, List.forall_mem_nil _, connect_eq_some_iff.1 hconnect, rfl⟩
  | case3 candidate rest hconnect outcome ih =>
      have hsilent := connect_eq_none_iff.1 hconnect
      rcases ih with ⟨before, winner, others, session, rfl, hbefore, hwinner, houtcome⟩ | ⟨hnone, houtcome⟩
      · refine .inl ⟨candidate :: before, winner, others, session, rfl, ?_, hwinner, ?_⟩
        · exact List.forall_mem_cons.2 ⟨hsilent, hbefore⟩
        · simp only [outcome, houtcome, List.cons_append]
      · refine .inr ⟨List.forall_mem_cons.2 ⟨hsilent, hnone⟩, ?_⟩
        simp only [outcome, houtcome]

/-- Candidates are tried in one order, in which each has its turn, up to the first that responds: this one is found,
with the session in which it answered, and none behind it is tried. No device is found just if none of the candidates
responds, and then all have been tried. -/
theorem first_responding_found (line : Line σ) (channel : Channel) (pings : Nat) (candidates : List (Candidate σ)) :
    ∃ order, (∀ other, TrialOrder channel.identifier candidates other ↔ other = order) ∧ order.Perm candidates ∧
      ((∃ before winner rest session, order = before ++ winner :: rest ∧
          (∀ candidate ∈ before, ∀ session, ¬ Responds line channel pings candidate session) ∧
          Responds line channel pings winner session ∧
          discover line channel pings candidates = ⟨before ++ [winner], .ok (winner, session)⟩) ∨
        discover line channel pings candidates = ⟨order, .error (.noDevice candidates.length)⟩) ∧
      ((discover line channel pings candidates).found = .error (.noDevice candidates.length) ↔
        ∀ candidate ∈ candidates, ∀ session, ¬ Responds line channel pings candidate session) := by
  have horder : TrialOrder channel.identifier candidates (prioritize candidates channel.identifier) :=
    trialOrder_iff.2 rfl
  have hperm := horder.perm
  refine ⟨prioritize candidates channel.identifier, fun other => trialOrder_iff, hperm, ?_⟩
  rw [discover]
  rcases search_eq line channel pings candidates.length (prioritize candidates channel.identifier) with
    ⟨before, winner, rest, session, horder, hbefore, hwinner, hsearch⟩ | ⟨hnone, hsearch⟩
  · refine ⟨.inl ⟨before, winner, rest, session, horder, hbefore, hwinner, hsearch⟩, ?_⟩
    rw [hsearch]
    refine ⟨fun h => (by cases h), fun hsilent => ?_⟩
    have hmem : winner ∈ candidates := hperm.mem_iff.1 (horder ▸ List.mem_append_cons_self)
    exact absurd hwinner (hsilent winner hmem session)
  · refine ⟨.inr hsearch, ?_⟩
    rw [hsearch]
    exact ⟨fun _ candidate hmem => hnone candidate (hperm.mem_iff.2 hmem), fun _ => rfl⟩

/-- The candidate with the identifier is tried first, but cannot be opened; the next has printed a line before it
answers, and the last is not tried. -/
example :
    (discover (Wired.line Bench.pinger) { Bench.contract.channel with identifier := "bench" } 3
      [{ Bench.printing [Bench.banner] with name := "first" },
        { Bench.printing [] with name := "second", identifier := some "bench", connect := fun _ => .error .closed },
        { Bench.printing [] with name := "third" }]).tried.map (·.name) = ["second", "first"] := by
  decide +kernel

end Discovery

end SerialContract
