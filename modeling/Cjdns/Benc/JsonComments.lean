import Cjdns.Benc.JsonTermination
import Cjdns.Library.Scanning

/-!
# Where a comment ends

`parseComment` reads one character behind each splat that `readUntil` stops at, and does not look
at it again. Of two splats in a row, the second is not taken for one, and a slash behind it ends no
comment.
-/

namespace Cjdns.JsonBencSerializer

open StandardBencSerializer Scanning

/-- A comment is read up to where it ends and no further. -/
structure CommentEnds (behind : BitVec 8) (bytes : BString) : Prop where
  succeeds_iff : ∀ body, bytes = SLASH :: SPLAT :: body →
    ((parseComment (newReader bytes behind)).1 = none ↔ [SPLAT, SLASH] <:+: body)
  splat : ∀ front rest, bytes = SLASH :: SPLAT :: (front ++ SPLAT :: SLASH :: rest) →
    ¬[SPLAT, SLASH] <:+: front ++ [SPLAT] →
      parseComment (newReader bytes behind) = (none, newReader rest behind)
  line : ∀ front rest, bytes = SLASH :: SLASH :: (front ++ NEWLINE :: rest) → NEWLINE ∉ front →
    parseComment (newReader bytes behind) = (none, newReader rest behind)

theorem newReader_append (front rest : BString) (behind : BitVec 8) :
    newReader (front ++ rest) behind = front ++ newReader rest behind :=
  List.append_assoc _ _ _

theorem exists_newReader (bytes : BString) (behind : BitVec 8) :
    ∃ first rest, newReader bytes behind = first :: rest := by
  cases bytes with
  | nil => exact ⟨behind, [], rfl⟩
  | cons first rest => exact ⟨first, rest ++ [behind], rfl⟩

/-! ## Lines -/

theorem readUntil_append {target behind : BitVec 8} {front rest : BString}
    (none : target ∉ front) :
    readUntil target (newReader (front ++ target :: rest) behind) =
      (Option.none, newReader rest behind) := by
  induction front with
  | nil =>
      rcases exists_newReader rest behind with ⟨next, others, same⟩
      change readUntil target (target :: newReader rest behind) = _
      rw [same, readUntil, if_pos rfl]
  | cons first front ih =>
      rw [List.mem_cons, not_or] at none
      rcases exists_newReader (front ++ target :: rest) behind with ⟨next, others, same⟩
      change readUntil target (first :: newReader (front ++ target :: rest) behind) = _
      rw [same, readUntil, if_neg (Ne.symm none.1), ← same]
      exact ih none.2

/-! ## Splats -/

/-- One more character that is no end -/
theorem splatLoop_cons {behindSplat : Bool} {char : BitVec 8} {reader : Reader}
    (going : behindSplat = true → char ≠ SLASH) (some : reader ≠ []) :
    splatLoop behindSplat (char :: reader) = splatLoop (turn SPLAT behindSplat char) reader := by
  rcases List.exists_cons_of_ne_nil some with ⟨next, rest, rfl⟩
  rw [splatLoop]
  cases behindSplat with
  | false => rfl
  | true =>
      rw [if_pos rfl, if_neg (going rfl)]
      rfl

/-- Without a splat and a slash in a row, the loop goes on. -/
theorem splatLoop_append {behindSplat : Bool} {front : BString} {reader : Reader}
    (none : ¬[SPLAT, SLASH] <:+: front)
    (going : behindSplat = true → front.head? ≠ some SLASH) (some : reader ≠ []) :
    splatLoop behindSplat (front ++ reader) =
      splatLoop (front.foldl (turn SPLAT) behindSplat) reader := by
  induction front generalizing behindSplat with
  | nil => rfl
  | cons char front ih =>
      rw [List.infix_cons_iff, not_or] at none
      rw [List.cons_append, splatLoop_cons (fun behind same => going behind (by rw [same]; rfl))
        (by simp [some]), List.foldl_cons]
      refine ih none.2 fun behind slash => none.1 ?_
      rw [turn, Bool.and_eq_true, decide_eq_true_eq] at behind
      rcases front with _ | ⟨next, front⟩
      · cases slash
      · rw [List.head?_cons, Option.some.injEq] at slash
        rw [behind.2, slash]
        exact ⟨front, rfl⟩

/-- At the beginning or behind something that is no splat, none has been noticed. -/
theorem splatLoop_front {front : BString} {reader : Reader} (none : ¬[SPLAT, SLASH] <:+: front)
    (ends : front.getLast? ≠ some SPLAT) (some : reader ≠ []) :
    splatLoop false (front ++ reader) = splatLoop false reader := by
  rw [splatLoop_append none (fun behind => by cases behind) some, foldl_turn_of_ends ends]

theorem not_pair_replicate (number : ℕ) : ¬[SPLAT, SLASH] <:+: List.replicate number SPLAT :=
  @not_pair_append_replicate _ SPLAT SLASH (by decide) [] (by simp) number

theorem splatLoop_pairs (pairs : ℕ) {reader : Reader} (some : reader ≠ []) :
    splatLoop false (List.replicate (2 * pairs) SPLAT ++ reader) = splatLoop false reader := by
  rw [splatLoop_append (not_pair_replicate _) (fun behind => by cases behind) some,
    foldl_turn_replicate]

theorem newReader_ne_nil (bytes : BString) (behind : BitVec 8) : newReader bytes behind ≠ [] := by
  simp [newReader]

/-- The slash behind a splat without another one in front of it -/
theorem splatLoop_ends (rest : BString) (behind : BitVec 8) :
    splatLoop false (newReader (SPLAT :: SLASH :: rest) behind) = (none, newReader rest behind) := by
  rcases exists_newReader rest behind with ⟨next, others, same⟩
  change splatLoop false (SPLAT :: SLASH :: newReader rest behind) = _
  rw [same]
  rfl

theorem parseComment_splat (body : BString) (behind : BitVec 8) :
    parseComment (newReader (SLASH :: SPLAT :: body) behind) =
      splatLoop false (newReader body behind) := by
  rcases exists_newReader body behind with ⟨next, others, same⟩
  change parseComment (SLASH :: SPLAT :: newReader body behind) = _
  rw [same]
  rfl

theorem parseComment_line (body : BString) (behind : BitVec 8) :
    parseComment (newReader (SLASH :: SLASH :: body) behind) =
      readUntil NEWLINE (newReader body behind) := by
  rcases exists_newReader body behind with ⟨next, others, same⟩
  change parseComment (SLASH :: SLASH :: newReader body behind) = _
  rw [same]
  rfl

/-- Without an end, the reader comes to its own. -/
theorem splatLoop_unterminated {body : BString} {behind : BitVec 8}
    (none : ¬[SPLAT, SLASH] <:+: body) :
    splatLoop false (newReader body behind) = (some .OUT_OF_CONTENT_TO_READ, [behind]) := by
  rw [newReader, splatLoop_append none (fun behind => by cases behind) (List.cons_ne_nil _ _)]
  rfl

/-- The comment goes on behind the slash of an even number of splats. -/
theorem splatLoop_even {front rest : BString} {pairs : ℕ} {behind : BitVec 8}
    (ends : front.getLast? ≠ some SPLAT) (none : ¬[SPLAT, SLASH] <:+: front) :
    splatLoop false (newReader (front ++ (List.replicate (2 * pairs) SPLAT ++ SLASH :: rest))
      behind) = splatLoop false (newReader rest behind) := by
  rw [newReader_append, newReader_append, splatLoop_front none ends (by simp [newReader]),
    splatLoop_pairs pairs (newReader_ne_nil _ _)]
  exact splatLoop_cons (fun behind => by cases behind) (newReader_ne_nil _ _)

/-- It ends at the slash of an odd number. -/
theorem splatLoop_odd {front rest : BString} {pairs : ℕ} {behind : BitVec 8}
    (ends : front.getLast? ≠ some SPLAT) (none : ¬[SPLAT, SLASH] <:+: front) :
    splatLoop false (newReader (front ++ (List.replicate (2 * pairs) SPLAT ++
      SPLAT :: SLASH :: rest)) behind) = (Option.none, newReader rest behind) := by
  rw [newReader_append, newReader_append, splatLoop_front none ends (by simp [newReader]),
    splatLoop_pairs pairs (newReader_ne_nil _ _), splatLoop_ends]

theorem length_splatLoop_lt {behindSplat : Bool} {reader : Reader}
    (ends : (splatLoop behindSplat reader).1 = none) :
    (splatLoop behindSplat reader).2.length < reader.length := by
  fun_induction splatLoop behindSplat reader with
  | case1 => simp
  | case2 _ _ _ _ ih => exact lt_trans (ih ends) (by simp)
  | case3 _ _ _ _ _ ih => exact lt_trans (ih ends) (by simp)
  | case4 => cases ends

/-! ## Comments -/

/--
A comment ends where it should unless the first slash behind a splat is behind an even number of
them.
-/
theorem commentEnds_iff {behind : BitVec 8} {bytes : BString} :
    CommentEnds behind bytes ↔
      ¬∃ front pairs rest, 0 < pairs ∧
        bytes = SLASH :: SPLAT :: (front ++ (List.replicate (2 * pairs) SPLAT ++ SLASH :: rest)) ∧
        front.getLast? ≠ some SPLAT ∧ ¬[SPLAT, SLASH] <:+: front := by
  constructor
  · rintro right ⟨front, pairs, rest, positive, rfl, ends, none⟩
    rcases pairs with _ | pairs
    · exact absurd positive (Nat.lt_irrefl 0)
    have missed := @splatLoop_even front rest (pairs + 1) behind ends none
    have order : front ++ (List.replicate (2 * (pairs + 1)) SPLAT ++ SLASH :: rest) =
        (front ++ List.replicate (2 * pairs + 1) SPLAT) ++ SPLAT :: SLASH :: rest := by
      rw [Nat.mul_succ, List.replicate_succ']
      simp
    have first :
        ¬[SPLAT, SLASH] <:+: (front ++ List.replicate (2 * pairs + 1) SPLAT) ++ [SPLAT] := by
      rw [List.append_assoc, ← List.replicate_succ']
      exact not_pair_append_replicate (by decide) none _
    have read := right.splat _ rest (by rw [order]) first
    rw [parseComment_splat, missed] at read
    -- The loop is said not to have moved.
    have further := @length_splatLoop_lt false _ (congrArg Prod.fst read)
    rw [read] at further
    exact absurd further (lt_irrefl _)
  · intro odd
    have splat : ∀ front rest, bytes = SLASH :: SPLAT :: (front ++ SPLAT :: SLASH :: rest) →
        ¬[SPLAT, SLASH] <:+: front ++ [SPLAT] →
          parseComment (newReader bytes behind) = (none, newReader rest behind) := by
      rintro front rest rfl first
      rcases exists_run SPLAT front with ⟨before, number, rfl, ends⟩
      have none : ¬[SPLAT, SLASH] <:+: before := fun inside =>
        first (inside.trans (by rw [List.append_assoc]; exact List.infix_append' [] _ _))
      rw [parseComment_splat, List.append_assoc]
      rcases Nat.even_or_odd' number with ⟨pairs, rfl | rfl⟩
      · exact splatLoop_odd ends none
      · refine absurd ⟨before, pairs + 1, rest, Nat.succ_pos _, ?_, ends, none⟩ odd
        rw [Nat.mul_succ, List.replicate_succ' (n := 2 * pairs + 1)]
        simp
    refine ⟨?_, splat, ?_⟩
    · rintro body rfl
      constructor
      · intro succeeds
        by_contra none
        rw [parseComment_splat, splatLoop_unterminated none] at succeeds
        cases succeeds
      · intro inside
        rcases exists_first_pair inside with ⟨front, rest, rfl, first⟩
        rw [splat front rest rfl first]
    · rintro front rest rfl none
      rw [parseComment_line]
      exact readUntil_append none

/-- A comment that is one more splat has no end. -/
theorem two_splats_unterminated : ¬CommentEnds 0 [SLASH, SPLAT, SPLAT, SPLAT, SLASH] := by
  intro right
  have inside : [SPLAT, SLASH] <:+: [SPLAT, SPLAT, SLASH] := by decide
  have succeeds := (right.succeeds_iff _ rfl).mpr inside
  exact absurd succeeds (by decide)

end Cjdns.JsonBencSerializer
