import FleetManagement.Api.Privacy
import FleetManagement.Privacy.Sanitizer

/-!
# The guard of correlation ids

`fleet_management.privacy.correlation`: which ids of clients are reused. Its pattern ends in `$`, which also
matches before a line break at the end.
-/

namespace FleetManagement

open Regex

/-- `[A-Za-z0-9._-]` -/
def isIdChar (c : Char) : Bool := c.isAlphanum || c = '.' || c = '_' || c = '-'

/-- `[A-Za-z0-9._-]{1,64}` -/
def validIdRe : Regex Char := .rep (.one isIdChar) 1 (some 64) true

/-- `re.match` finds a match of the pattern and `$`. -/
def matchesLine (r : Regex Char) (text : Text) : Bool :=
  (r.ways (.start text)).any fun d => d.rest == [] || d.rest == ['\n']

/-- The grammar of correlation ids. -/
structure IsId (s : String) : Prop where
  min : 1 ≤ s.length
  max : s.length ≤ 64
  chars : ∀ c ∈ s.toList, isIdChar c = true

/-- What the log, the response header and the audit trail rely on. -/
structure Guards (incoming out : String) : Prop where
  id : IsId out
  same : out = incoming ↔ IsId incoming
  line : '\n' ∉ out.toList
  column : varchar 64 out = .ok ()

section Guard
variable {s out : String}

theorem isId_iff : IsId s ↔ validIdRe.Matches s.toList := by
  have hmatches : validIdRe.Matches s.toList ↔
      1 ≤ s.toList.length ∧ (∀ n ∈ some 64, s.toList.length ≤ n) ∧ ∀ c ∈ s.toList, isIdChar c = true :=
    matches_rep_one
  rw [hmatches, String.length_toList]
  exact ⟨fun h => ⟨h.min, fun n hn => (by cases hn; exact h.max), h.chars⟩, fun ⟨hmin, hmax, hchars⟩ =>
    ⟨hmin, hmax 64 rfl, hchars⟩⟩

theorem matchesLine_iff : matchesLine validIdRe s.toList = true ↔
    IsId s ∨ ∃ w, IsId w ∧ s = w ++ "\n" := by
  unfold matchesLine
  rw [List.any_eq_true]
  constructor
  · rintro ⟨d, hd, hend⟩
    obtain ⟨w, hw, hread⟩ := ways_sound hd
    have hsplit : s.toList = w ++ d.rest := hread.rest
    rcases Bool.or_eq_true_iff.mp hend with hend | hend
    · rw [beq_iff_eq.mp hend, List.append_nil] at hsplit
      exact .inl (isId_iff.mpr (hsplit ▸ hw))
    · rw [beq_iff_eq.mp hend] at hsplit
      refine .inr ⟨String.ofList w, isId_iff.mpr (by rwa [String.toList_ofList]), ?_⟩
      rw [← String.toList_inj, String.toList_append, String.toList_ofList]
      exact hsplit
  · have hplain : validIdRe.Plain := ⟨trivial, by rintro ⟨x, -, hx⟩; cases hx⟩
    rintro (h | ⟨w, h, rfl⟩)
    · obtain ⟨d, hd, hread⟩ := ways_complete hplain (c := .start s.toList) (isId_iff.mp h) List.prefix_rfl
      have hrest : d.rest = [] := List.self_eq_append_right.mp hread.rest
      exact ⟨d, hd, by simp [hrest]⟩
    · have hprefix : w.toList <+: (w ++ "\n").toList := by
        rw [String.toList_append]
        exact List.prefix_append ..
      obtain ⟨d, hd, hread⟩ := ways_complete hplain (c := .start (w ++ "\n").toList) (isId_iff.mp h) hprefix
      have hrest : w.toList ++ "\n".toList = w.toList ++ d.rest := by
        rw [← String.toList_append]
        exact hread.rest
      refine ⟨d, hd, ?_⟩
      rw [← List.append_cancel_left hrest]
      decide

theorem newline_not_idChar : isIdChar '\n' = false := by decide

theorem IsId.line (h : IsId s) : '\n' ∉ s.toList := fun hmem => by
  have hchar := h.chars _ hmem
  rw [newline_not_idChar] at hchar
  cases hchar

theorem isId_of_body {body : Text} : IsId (String.ofList body) ↔
    1 ≤ body.length ∧ body.length ≤ 64 ∧ body.all isIdChar = true := by
  rw [List.all_eq_true]
  constructor
  · intro h
    exact ⟨by simpa using h.min, by simpa using h.max, by simpa using h.chars⟩
  · rintro ⟨hmin, hmax, hchars⟩
    exact ⟨by simpa using hmin, by simpa using hmax, by simpa using hchars⟩

/-- The check of the routes is the match of the pattern. -/
theorem isCorrelationId_iff : isCorrelationId s = true ↔ matchesLine validIdRe s.toList = true := by
  rw [matchesLine_iff]
  have hbody : ∀ body : Text, (decide (1 ≤ body.length ∧ body.length ≤ 64 ∧
      (body.all fun c => c.isAlphanum || c = '.' || c = '_' || c = '-') = true)) = true ↔
      IsId (String.ofList body) := fun body => decide_eq_true_iff.trans isId_of_body.symm
  unfold isCorrelationId
  dsimp only
  rw [hbody]
  split
  · rename_i hlast
    obtain ⟨body, hs⟩ := List.getLast?_eq_some_iff.mp hlast
    have hsplit : s = String.ofList body ++ "\n" := by
      rw [← String.toList_inj, String.toList_append, String.toList_ofList]
      exact hs
    rw [hs, List.dropLast_concat]
    constructor
    · intro h
      exact .inr ⟨_, h, hsplit⟩
    · rintro (h | ⟨w, hw, hs'⟩)
      · exact absurd (by simp [hs]) h.line
      · have hsame : String.ofList body = w := by
          have happend : body ++ ['\n'] = w.toList ++ ['\n'] := by
            rw [← hs, hs', String.toList_append]
            rfl
          rw [List.append_cancel_right happend, String.ofList_toList]
        rw [hsame]
        exact hw
  · rename_i hlast
    rw [String.ofList_toList]
    constructor
    · exact .inl
    · rintro (h | ⟨w, -, rfl⟩)
      · exact h
      · refine absurd ?_ hlast
        rw [String.toList_append]
        exact List.getLast?_concat

theorem isId_uuid (u : UuidHex) : IsId u.val where
  min := by rw [u.length_eq]; decide
  max := by rw [u.length_eq]; decide
  chars c hc := by
    have hhex := List.all_eq_true.mp u.hex c hc
    rcases of_decide_eq_true hhex with ⟨hlow, hhigh⟩ | ⟨hlow, hhigh⟩
    · have hdigit : c.isDigit = true := by
        simp only [Char.isDigit, Bool.and_eq_true, decide_eq_true_eq]
        exact ⟨hlow, hhigh⟩
      simp [isIdChar, Char.isAlphanum, hdigit]
    · have hlower : c.isLower = true := by
        refine (Bool.and_eq_true _ _).mpr ⟨decide_eq_true hlow, decide_eq_true ?_⟩
        exact UInt32.le_trans hhigh (by decide)
      have halpha : c.isAlpha = true := (Bool.or_eq_true _ _).mpr (.inr hlower)
      simp [isIdChar, Char.isAlphanum, halpha]

theorem IsId.column (h : IsId s) : varchar 64 s = .ok () := by
  refine if_pos ⟨h.max, fun hmem => ?_⟩
  have hno : isIdChar '\x00' = false := by decide
  have hchar := h.chars _ hmem
  rw [hno] at hchar
  cases hchar

theorem guards_of_isId {incoming : String} (h : IsId out) (hsame : out = incoming ↔ IsId incoming) :
    Guards incoming out := ⟨h, hsame, h.line, h.column⟩

end Guard

/-- For every id of a client the guard keeps its promise, unless the id is one of the grammar and a line break
after it. -/
theorem acceptOrGenerate_guards_iff (incoming : String) (env : Nat → Choice Draw Error)
    (session : Session Database Stmt) : ∃ out session',
    (acceptOrGenerate (some incoming)).eval dialect env session = (.ok out, session') ∧
      (Guards incoming out ↔ ¬ ∃ w, IsId w ∧ incoming = w ++ "\n") := by
  unfold acceptOrGenerate
  dsimp only
  cases haccept : isCorrelationId incoming with
  | true =>
      refine ⟨incoming, session, rfl, ?_⟩
      rcases matchesLine_iff.mp (isCorrelationId_iff.mp haccept) with h | ⟨w, hw, rfl⟩
      · refine iff_of_true (guards_of_isId h ⟨fun _ => h, fun _ => rfl⟩) ?_
        rintro ⟨w, -, rfl⟩
        exact h.line (by simp)
      · refine iff_of_false (fun h => h.line ?_) fun h => h ⟨w, hw, rfl⟩
        simp
  | false =>
      have hno : ¬ (IsId incoming ∨ ∃ w, IsId w ∧ incoming = w ++ "\n") := by
        rw [← matchesLine_iff, ← isCorrelationId_iff, haccept]
        exact Bool.false_ne_true
      have huuid := isId_uuid (env session.tick).draw.uuid
      refine ⟨(env session.tick).draw.uuid.val, { session with tick := session.tick + 1 }, rfl, ?_⟩
      refine iff_of_true (guards_of_isId huuid ⟨fun h => h ▸ huuid, fun h => absurd (.inl h) hno⟩) fun h =>
        hno (.inr h)

/-- A line break at the end gets through. -/
theorem line_break_accepted : ∃ out session', (acceptOrGenerate (some "abc\n")).eval dialect
      (fun _ => stepAt 0) ⟨.empty, [], 0⟩ = (.ok out, session') ∧ ¬ Guards "abc\n" out := by
  refine ⟨"abc\n", ⟨.empty, [], 0⟩, rfl, fun h => ?_⟩
  exact absurd h.line (by decide)

end FleetManagement
