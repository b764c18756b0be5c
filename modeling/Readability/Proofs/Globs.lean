import Readability.Config.Project
import Readability.Proofs.Expressions

/-!
# Patterns for paths

What a pattern means is said by the ways a path is made up of (`Splits`): the pattern is read from
the left, and each sign of it stands for the next part of the path. A matcher tries all parts that
a sign can stand for (`signsMatch_cons_iff`), so it finds such a way if there is one
(`signsMatch_iff_splits`).

Patterns are also translated into regular expressions (`translate_eq`). The expression is read back
as the signs it was made of (`read_expression`), and it occurs in a path exactly when the matcher
accepts it (`globMatch_iff_occurs`).

Main statement: `exclusion_iff_meets`. A path is left out when it is made up as one of the patterns
that count says, whether patterns are matched or compiled, one by one or all at once.
-/

namespace Readability.Config

open Readability.Text (Regex)

/-! ## What a pattern means -/

/-- A path is made up as a pattern says, read from left to right. With `anchored` nothing
may come behind the pattern. -/
inductive Splits (anchored : Bool) : List Char → List Char → Prop where
  | ended : Splits anchored [] []
  | followed {behind} (h : anchored = false) : Splits anchored [] behind
  /-- `**/` stands for nothing, or for a text that ends in a slash. -/
  | directories {signs front path} (hfront : front = [] ∨ ∃ text, front = text ++ ['/'])
      (h : Splits anchored signs path) :
      Splits anchored ('*' :: '*' :: '/' :: signs) (front ++ path)
  /-- Any other `**` stands for any text. -/
  | anything {signs front path} (hnext : signs.head? ≠ some '/') (h : Splits anchored signs path) :
      Splits anchored ('*' :: '*' :: signs) (front ++ path)
  /-- Any other `*` stands for a text without slashes. -/
  | run {signs front path} (hnext : signs.head? ≠ some '*') (hfront : '/' ∉ front)
      (h : Splits anchored signs path) : Splits anchored ('*' :: signs) (front ++ path)
  /-- `?` stands for a character that is no slash. -/
  | one {signs c path} (hc : c ≠ '/') (h : Splits anchored signs path) :
      Splits anchored ('?' :: signs) (c :: path)
  /-- Any other character stands for itself. -/
  | literal {signs c path} (hrun : c ≠ '*') (hone : c ≠ '?') (h : Splits anchored signs path) :
      Splits anchored (c :: signs) (c :: path)

/-- Whether a pattern has a wildcard. -/
def hasWildcard (pattern : List Char) : Bool :=
  pattern.any fun c => c == '*' || c == '?'

/-- A path meets a pattern. Behind a pattern without wildcards any text may come. -/
def Meets (pattern path : String) : Prop :=
  Splits (hasWildcard pattern.toList) pattern.toList path.toList

namespace Splits

variable {anchored : Bool} {signs path : List Char}

theorem nil_iff : Splits anchored [] path ↔ anchored = false ∨ path = [] := by
  constructor
  · rintro (_ | hopen)
    · exact .inr rfl
    · exact .inl hopen
  · rintro (hopen | rfl)
    · exact .followed hopen
    · exact .ended

theorem directories_iff : Splits anchored ('*' :: '*' :: '/' :: signs) path ↔
    ∃ front rest, path = front ++ rest ∧ (front = [] ∨ ∃ text, front = text ++ ['/']) ∧
      Splits anchored signs rest := by
  constructor
  · intro hsplits
    cases hsplits with
    | directories hfront h => exact ⟨_, _, rfl, hfront, h⟩
    | anything hnext h => exact absurd rfl hnext
    | run hnext hfront h => exact absurd rfl hnext
    | literal hrun hone h => exact absurd rfl hrun
  · rintro ⟨front, rest, rfl, hfront, h⟩
    exact .directories hfront h

theorem anything_iff (hnext : signs.head? ≠ some '/') : Splits anchored ('*' :: '*' :: signs) path ↔
    ∃ front rest, path = front ++ rest ∧ Splits anchored signs rest := by
  constructor
  · intro hsplits
    cases hsplits with
    | directories hfront h => exact absurd rfl hnext
    | anything hnext h => exact ⟨_, _, rfl, h⟩
    | run hnext hfront h => exact absurd rfl hnext
    | literal hrun hone h => exact absurd rfl hrun
  · rintro ⟨front, rest, rfl, h⟩
    exact .anything hnext h

theorem run_iff (hnext : signs.head? ≠ some '*') : Splits anchored ('*' :: signs) path ↔
    ∃ front rest, path = front ++ rest ∧ '/' ∉ front ∧ Splits anchored signs rest := by
  constructor
  · intro hsplits
    cases hsplits with
    | directories hfront h => exact absurd rfl hnext
    | anything hnext' h => exact absurd rfl hnext
    | run hnext hfront h => exact ⟨_, _, rfl, hfront, h⟩
    | literal hrun hone h => exact absurd rfl hrun
  · rintro ⟨front, rest, rfl, hfront, h⟩
    exact .run hnext hfront h

theorem one_iff : Splits anchored ('?' :: signs) path ↔
    ∃ front rest, path = front ++ rest ∧ (∃ c, front = [c] ∧ c ≠ '/') ∧
      Splits anchored signs rest := by
  constructor
  · intro hsplits
    cases hsplits with
    | one hc h => exact ⟨[_], _, rfl, ⟨_, rfl, hc⟩, h⟩
    | literal hrun hone h => exact absurd rfl hone
  · rintro ⟨_, rest, rfl, ⟨c, rfl, hc⟩, h⟩
    exact .one hc h

theorem literal_iff {c : Char} (hrun : c ≠ '*') (hone : c ≠ '?') :
    Splits anchored (c :: signs) path ↔
      ∃ front rest, path = front ++ rest ∧ front = [c] ∧ Splits anchored signs rest := by
  constructor
  · intro hsplits
    cases hsplits with
    | literal hrun hone h => exact ⟨[c], _, rfl, rfl, h⟩
    | directories hfront h => exact absurd rfl hrun
    | anything hnext h => exact absurd rfl hrun
    | run hnext hfront h => exact absurd rfl hrun
    | one hc h => exact absurd rfl hone
  · rintro ⟨_, rest, rfl, rfl, h⟩
    exact .literal hrun hone h

end Splits

/-! ## What a sign stands for -/

namespace GlobSign

theorem ofPattern_anything {rest : List Char} (hnext : ∀ behind, rest ≠ '/' :: behind) :
    ofPattern ('*' :: '*' :: rest) = anything :: ofPattern rest := by
  rw [ofPattern]
  exact hnext

theorem ofPattern_run {rest : List Char} (hnext : ∀ behind, rest ≠ '*' :: behind) :
    ofPattern ('*' :: rest) = run :: ofPattern rest := by
  rw [ofPattern]
  · exact fun _ => hnext _
  · exact hnext

theorem ofPattern_literal {c : Char} (hrun : c ≠ '*') (hone : c ≠ '?') (rest : List Char) :
    ofPattern (c :: rest) = literal c :: ofPattern rest := by
  rw [ofPattern]
  · exact fun _ hc => absurd hc hrun
  · exact fun _ hc => absurd hc hrun
  · exact hrun
  · exact hone

end GlobSign

/-- A sign stands for a text. No line feed is hidden behind a double star. -/
def GlobSign.StandsFor : GlobSign → List Char → Prop
  | literal c, text => text = [c]
  | one, text => ∃ c, text = [c] ∧ c ≠ '/'
  | run, text => '/' ∉ text
  | anything, text => '\n' ∉ text
  | directories, text => text = [] ∨ ∃ front, text = front ++ ['/'] ∧ '\n' ∉ front

theorem mem_afterRuns_iff {stop : Char} {cs rest : List Char} :
    rest ∈ afterRuns (· != stop) cs ↔ ∃ front, cs = front ++ rest ∧ stop ∉ front := by
  induction cs with
  | nil =>
    rw [afterRuns, List.mem_singleton]
    constructor
    · rintro rfl
      exact ⟨[], rfl, List.not_mem_nil⟩
    · rintro ⟨front, hnil, -⟩
      exact (List.append_eq_nil_iff.mp hnil.symm).2
  | cons c cs ih =>
    rw [afterRuns, List.mem_cons]
    constructor
    · rintro (rfl | hrest)
      · exact ⟨[], rfl, List.not_mem_nil⟩
      · split at hrest
        · rename_i hc
          obtain ⟨front, rfl, hfront⟩ := ih.mp hrest
          rw [bne_iff_ne] at hc
          exact ⟨c :: front, rfl, List.not_mem_cons_of_ne_of_not_mem hc.symm hfront⟩
        · exact absurd hrest List.not_mem_nil
    · rintro ⟨front, hcs, hfront⟩
      cases front with
      | nil => exact .inl hcs.symm
      | cons d front =>
        injection hcs with hd hcs
        subst hd
        rw [List.mem_cons, not_or] at hfront
        rw [if_pos (bne_iff_ne.mpr fun hc => hfront.1 hc.symm)]
        exact .inr (ih.mpr ⟨front, hcs, hfront.2⟩)

theorem any_afterRuns_iff {stop : Char} {cs : List Char} {accept : List Char → Bool} :
    (afterRuns (· != stop) cs).any accept = true ↔
      ∃ front rest, cs = front ++ rest ∧ stop ∉ front ∧ accept rest = true := by
  rw [List.any_eq_true]
  constructor
  · rintro ⟨rest, hrest, haccept⟩
    obtain ⟨front, hcs, hfront⟩ := mem_afterRuns_iff.mp hrest
    exact ⟨front, rest, hcs, hfront, haccept⟩
  · rintro ⟨front, rest, hcs, hfront, haccept⟩
    exact ⟨rest, mem_afterRuns_iff.mpr ⟨front, hcs, hfront⟩, haccept⟩

theorem mem_afterSlashes_iff {cs rest : List Char} :
    rest ∈ afterSlashes cs ↔ ∃ front, cs = front ++ '/' :: rest ∧ '\n' ∉ front := by
  induction cs with
  | nil =>
    refine iff_of_false List.not_mem_nil ?_
    rintro ⟨front, hnil, -⟩
    exact List.cons_ne_nil _ _ (List.append_eq_nil_iff.mp hnil.symm).2
  | cons c cs ih =>
    have hcons : (∃ front, c :: cs = front ++ '/' :: rest ∧ '\n' ∉ front) ↔
        (c = '/' ∧ cs = rest) ∨ c ≠ '\n' ∧ rest ∈ afterSlashes cs := by
      rw [ih]
      constructor
      · rintro ⟨front, hcs, hfront⟩
        cases front with
        | nil =>
          injection hcs with hc hcs
          exact .inl ⟨hc, hcs⟩
        | cons d front =>
          injection hcs with hd hcs
          subst hd
          rw [List.mem_cons, not_or] at hfront
          exact .inr ⟨fun hc => hfront.1 hc.symm, front, hcs, hfront.2⟩
      · rintro (⟨rfl, rfl⟩ | ⟨hc, front, rfl, hfront⟩)
        · exact ⟨[], rfl, List.not_mem_nil⟩
        · exact ⟨c :: front, rfl, List.not_mem_cons_of_ne_of_not_mem hc.symm hfront⟩
    rw [hcons, afterSlashes]
    by_cases hfeed : c = '\n'
    · subst hfeed
      refine iff_of_false List.not_mem_nil ?_
      rintro (⟨hslash, -⟩ | ⟨hfeed, -⟩)
      · exact absurd hslash (by decide)
      · exact hfeed rfl
    · by_cases hslash : c = '/'
      · subst hslash
        simp [eq_comm]
      · simp [hfeed, hslash]

theorem signsMatch_nil_iff {anchored : Bool} {path : List Char} :
    signsMatch anchored [] path = true ↔ anchored = false ∨ path = [] := by
  rw [signsMatch, Bool.or_eq_true, Bool.not_eq_true', List.isEmpty_iff]

/-- **Signs are matched one after the other.** -/
theorem signsMatch_cons_iff {anchored : Bool} {sign : GlobSign} {signs : List GlobSign}
    {path : List Char} : signsMatch anchored (sign :: signs) path = true ↔
      ∃ front rest, path = front ++ rest ∧ sign.StandsFor front ∧
        signsMatch anchored signs rest = true := by
  cases sign with
  | literal c =>
    constructor
    · intro hmatch
      cases path with
      | nil => cases hmatch
      | cons d path =>
        rw [signsMatch, Bool.and_eq_true, beq_iff_eq] at hmatch
        exact ⟨[d], path, rfl, congrArg (fun e => [e]) hmatch.1, hmatch.2⟩
    · rintro ⟨_, rest, rfl, rfl, hmatch⟩
      rw [List.singleton_append, signsMatch, beq_self_eq_true, hmatch]
      rfl
  | one =>
    constructor
    · intro hmatch
      cases path with
      | nil => cases hmatch
      | cons d path =>
        rw [signsMatch, Bool.and_eq_true, bne_iff_ne] at hmatch
        exact ⟨[d], path, rfl, ⟨d, rfl, hmatch.1⟩, hmatch.2⟩
    · rintro ⟨_, rest, rfl, ⟨c, rfl, hc⟩, hmatch⟩
      rw [List.singleton_append, signsMatch, bne_iff_ne.mpr hc, hmatch]
      rfl
  | run =>
    rw [signsMatch]
    exact any_afterRuns_iff
  | anything =>
    rw [signsMatch]
    exact any_afterRuns_iff
  | directories =>
    rw [signsMatch, List.any_cons, Bool.or_eq_true, List.any_eq_true]
    constructor
    · rintro (hmatch | ⟨rest, hrest, hmatch⟩)
      · exact ⟨[], path, rfl, .inl rfl, hmatch⟩
      · obtain ⟨front, rfl, hfront⟩ := mem_afterSlashes_iff.mp hrest
        exact ⟨front ++ ['/'], rest, List.append_cons .., .inr ⟨front, rfl, hfront⟩, hmatch⟩
    · rintro ⟨_, rest, rfl, rfl | ⟨front, rfl, hfront⟩, hmatch⟩
      · exact .inl hmatch
      · have hrest : rest ∈ afterSlashes (front ++ ['/'] ++ rest) :=
          mem_afterSlashes_iff.mpr ⟨front, (List.append_cons ..).symm, hfront⟩
        exact .inr ⟨rest, hrest, hmatch⟩

/-! ## Matching a path -/

/-- **A path without a line feed is matched as it is made up.** -/
theorem signsMatch_iff_splits {anchored : Bool} {pattern path : List Char} (hpath : '\n' ∉ path) :
    signsMatch anchored (GlobSign.ofPattern pattern) path = true ↔
      Splits anchored pattern path := by
  -- along the signs as they are read; what is left of the path has no line feed either
  induction pattern using GlobSign.ofPattern.induct generalizing path with
  | case1 => rw [GlobSign.ofPattern, signsMatch_nil_iff, Splits.nil_iff]
  | case2 signs ih =>
    rw [GlobSign.ofPattern, signsMatch_cons_iff, Splits.directories_iff]
    refine exists₂_congr fun front rest => and_congr_right fun hsplit => ?_
    rw [hsplit, List.mem_append, not_or] at hpath
    refine and_congr (or_congr_right (exists_congr fun text => and_iff_left_of_imp ?_)) (ih hpath.2)
    rintro rfl hfeed
    exact hpath.1 (List.mem_append_left _ hfeed)
  | case3 signs hnext ih =>
    have hhead : signs.head? ≠ some '/' := fun hhead =>
      (List.head?_eq_some_iff.mp hhead).elim hnext
    rw [GlobSign.ofPattern_anything hnext, signsMatch_cons_iff, Splits.anything_iff hhead]
    refine exists₂_congr fun front rest => and_congr_right fun hsplit => ?_
    rw [hsplit, List.mem_append, not_or] at hpath
    exact (and_iff_right hpath.1).trans (ih hpath.2)
  | case4 signs hdirectories hnext ih =>
    have hhead : signs.head? ≠ some '*' := fun hhead =>
      (List.head?_eq_some_iff.mp hhead).elim hnext
    rw [GlobSign.ofPattern_run hnext, signsMatch_cons_iff, Splits.run_iff hhead]
    refine exists₂_congr fun front rest => and_congr_right fun hsplit => ?_
    rw [hsplit, List.mem_append, not_or] at hpath
    exact and_congr_right fun _ => ih hpath.2
  | case5 signs ih =>
    rw [GlobSign.ofPattern, signsMatch_cons_iff, Splits.one_iff]
    refine exists₂_congr fun front rest => and_congr_right fun hsplit => ?_
    rw [hsplit, List.mem_append, not_or] at hpath
    exact and_congr_right fun _ => ih hpath.2
  | case6 c signs hdirectories hanything hrun hone ih =>
    rw [GlobSign.ofPattern_literal hrun hone, signsMatch_cons_iff, Splits.literal_iff hrun hone]
    refine exists₂_congr fun front rest => and_congr_right fun hsplit => ?_
    rw [hsplit, List.mem_append, not_or] at hpath
    exact and_congr_right fun _ => ih hpath.2

/-! ## Patterns as expressions -/

/-- The part of an expression that stands for what a sign stands for. -/
def GlobSign.regex : GlobSign → Regex
  | literal c => .literal c
  | one => .other '/'
  | run => .many (.other '/')
  | anything => .many .dot
  | directories => .maybe (.chain [.many .dot, .literal '/'])

theorem matches_regex_iff {sign : GlobSign} {before part behind : List Char} :
    sign.regex.Matches before part behind ↔ sign.StandsFor part := by
  cases sign with
  | literal c => exact Regex.matches_literal_iff
  | one => exact Regex.matches_other_iff
  | run => exact (Regex.matches_many_iff Regex.matches_other_iff).trans List.forall_mem_ne'
  | anything => exact (Regex.matches_many_iff Regex.matches_dot_iff).trans List.forall_mem_ne'
  | directories =>
    refine Regex.matches_maybe_iff.trans (or_congr_right ?_)
    rw [Regex.chain, Regex.chain, Regex.chain, Regex.matches_both_iff]
    simp only [Regex.matches_both_iff, Regex.matches_literal_iff, Regex.matches_nothing_iff,
      Regex.matches_many_iff Regex.matches_dot_iff]
    constructor
    · rintro ⟨front, _, rfl, hfront, _, _, rfl, rfl, rfl⟩
      exact ⟨front, rfl, List.forall_mem_ne'.mp hfront⟩
    · rintro ⟨front, rfl, hfront⟩
      exact ⟨front, ['/'], rfl, List.forall_mem_ne'.mpr hfront, ['/'], [], rfl, rfl, rfl⟩

/-- **Signs match a path when their expression does.** -/
theorem signsMatch_iff_leads (anchored : Bool) (signs : List GlobSign) (before path : List Char) :
    signsMatch anchored signs path = true ↔
      (Regex.chain (signs.map GlobSign.regex ++ if anchored then [.stop] else [])).Leads before
        path := by
  -- the text in front grows with each sign, up to the end that the last one asks about
  induction signs generalizing before path with
  | nil =>
    rw [signsMatch_nil_iff, List.map_nil, List.nil_append]
    cases anchored with
    | false => exact iff_of_true (.inl rfl) ⟨[], path, rfl, .nothing⟩
    | true =>
      constructor
      · rintro (hopen | rfl)
        · cases hopen
        · exact ⟨[], [], rfl, Regex.matches_both_iff.mpr ⟨[], [], rfl, .stop, .nothing⟩⟩
      · rintro ⟨part, behind, rfl, h⟩
        obtain ⟨front, rest, rfl, hstop, -⟩ := Regex.matches_both_iff.mp h
        obtain ⟨rfl, hrest⟩ := Regex.matches_stop_iff.mp hstop
        exact .inr hrest
  | cons sign signs ih =>
    rw [signsMatch_cons_iff, List.map_cons, List.cons_append, Regex.chain, Regex.leads_both_iff]
    refine exists₂_congr fun front rest => and_congr_right fun _ => ?_
    rw [matches_regex_iff, ← ih]

/-- The text of an expression for what is to be read of a pattern. -/
def translate : List Char → List Char
  | [] => []
  | '*' :: '*' :: '/' :: rest => ['(', '?', ':', '.', '*', '/', ')', '?'] ++ translate rest
  | '*' :: '*' :: rest => ['.', '*'] ++ translate rest
  | '*' :: rest => ['[', '^', '/', ']', '*'] ++ translate rest
  | '?' :: rest => ['[', '^', '/', ']'] ++ translate rest
  | c :: rest => Regex.escaped c ++ translate rest

/-- The expression that a pattern is translated into. It holds from the start of a path on,
and up to its end if the pattern has a wildcard. -/
def expression (pattern : String) : String :=
  let chars := pattern.toList
  String.ofList ('^' :: (translate chars ++ if hasWildcard chars then ['$'] else []))

/-- What is written for a sign. -/
def GlobSign.text : GlobSign → List Char
  | literal c => Regex.escaped c
  | one => ['[', '^', '/', ']']
  | run => ['[', '^', '/', ']', '*']
  | anything => ['.', '*']
  | directories => ['(', '?', ':', '.', '*', '/', ')', '?']

/-- A pattern is translated sign by sign. -/
theorem translate_eq (pattern : List Char) :
    translate pattern = (GlobSign.ofPattern pattern).flatMap GlobSign.text := by
  induction pattern using GlobSign.ofPattern.induct with
  | case1 => rfl
  | case2 signs ih =>
    rw [translate, GlobSign.ofPattern, ih]
    rfl
  | case3 signs hnext ih =>
    rw [GlobSign.ofPattern_anything hnext, translate, ih]
    · rfl
    · exact hnext
  | case4 signs hdirectories hnext ih =>
    rw [GlobSign.ofPattern_run hnext, translate, ih]
    · rfl
    · exact hdirectories
    · exact hnext
  | case5 signs ih =>
    rw [translate, GlobSign.ofPattern, ih]
    rfl
  | case6 c signs hdirectories hanything hrun hone ih =>
    rw [GlobSign.ofPattern_literal hrun hone, translate, ih]
    · rfl
    · exact hdirectories
    · exact hanything
    · exact hrun
    · exact hone

/-- What is written for a sign is read as its part of the expression. -/
theorem readFrom_text (outer : List (List Regex)) (items : List Regex) (sign : GlobSign)
    (rest : List Char) : Regex.readFrom outer items (sign.text ++ rest) =
      Regex.readFrom outer (sign.regex :: items) rest := by
  cases sign with
  | literal c => exact Regex.readFrom_escaped outer items c rest
  | one => rfl
  | run => rfl
  | anything => rfl
  | directories => rfl

theorem readFrom_flatMap_text (outer : List (List Regex)) (items : List Regex)
    (signs : List GlobSign) (rest : List Char) :
    Regex.readFrom outer items (signs.flatMap GlobSign.text ++ rest) =
      Regex.readFrom outer ((signs.map GlobSign.regex).reverse ++ items) rest := by
  induction signs generalizing items with
  | nil => rw [List.flatMap_nil, List.nil_append, List.map_nil, List.reverse_nil, List.nil_append]
  | cons sign signs ih =>
    rw [List.flatMap_cons, List.append_assoc, readFrom_text, ih, List.map_cons, List.reverse_cons,
      List.append_assoc, List.singleton_append]

/-- A pattern has a wildcard when one of its signs is one. -/
theorem any_isWild_ofPattern (pattern : List Char) :
    (GlobSign.ofPattern pattern).any GlobSign.isWild = hasWildcard pattern := by
  induction pattern using GlobSign.ofPattern.induct with
  | case1 => rfl
  | case2 signs ih =>
    rw [GlobSign.ofPattern]
    rfl
  | case3 signs hnext ih =>
    rw [GlobSign.ofPattern_anything hnext]
    rfl
  | case4 signs hdirectories hnext ih =>
    rw [GlobSign.ofPattern_run hnext]
    rfl
  | case5 signs ih =>
    rw [GlobSign.ofPattern]
    rfl
  | case6 c signs hdirectories hanything hrun hone ih =>
    rw [GlobSign.ofPattern_literal hrun hone, List.any_cons, ih, hasWildcard, hasWildcard,
      List.any_cons, beq_false_of_ne hrun, beq_false_of_ne hone]
    rfl

/-- The expression of a pattern: its signs one after the other, between the ends of the path
that it holds to. -/
def patternRegex (pattern : List Char) : Regex :=
  .both .start (.chain ((GlobSign.ofPattern pattern).map GlobSign.regex ++
    if hasWildcard pattern then [.stop] else []))

/-- **The expression that a pattern is translated into is read as it is meant.** -/
theorem read_expression (pattern : String) :
    Regex.read (expression pattern) = some (patternRegex pattern.toList) := by
  have hstart : ∀ rest, Regex.readFrom [] [] ('^' :: rest) = Regex.readFrom [] [.start] rest :=
    fun _ => rfl
  rw [Regex.read, expression, String.toList_ofList, hstart, translate_eq, readFrom_flatMap_text,
    patternRegex]
  split
  · show some (Regex.chain _) = some (Regex.chain (.start :: _))
    rw [List.reverse_cons, List.reverse_append, List.reverse_reverse]
    rfl
  · show some (Regex.chain _) = some (Regex.chain (.start :: _))
    rw [List.reverse_append, List.reverse_reverse, List.append_nil]
    rfl

/-- A pattern is matched where its expression occurs. -/
theorem globMatch_iff_occurs (pattern path : String) :
    globMatch pattern path = true ↔ (patternRegex pattern.toList).Occurs path.toList := by
  rw [patternRegex, Regex.occurs_start_iff, ← signsMatch_iff_leads, ← any_isWild_ofPattern]
  rfl

theorem globMatch_iff_meets {path : String} (hpath : '\n' ∉ path.toList) (pattern : String) :
    globMatch pattern path = true ↔ Meets pattern path := by
  rw [Meets, ← signsMatch_iff_splits hpath, ← any_isWild_ofPattern]
  rfl

/-! ## Matching by compiled expressions -/

/-- A compiler of expressions serves an expression: it compiles it, and what it gives finds
what the expression matches. -/
def Serves (compile : String → Option (String → Bool)) (text : String) : Prop :=
  ∃ found, compile text = some found ∧
    ∀ r, Regex.read text = some r → ∀ path : String, found path = true ↔ r.Occurs path.toList

/-- Whether a path meets a pattern, by its compiled expression. -/
def compiledMatch (compile : String → Option (String → Bool)) (pattern path : String) : Bool :=
  (compile (expression pattern)).any fun found => found path

namespace Exclude

/-- Whether a path is left out, with each pattern compiled when it is needed. -/
def compiledCovers (compile : String → Option (String → Bool)) (e : Exclude)
    (path : String) : Bool :=
  e.patterns.any fun pattern => compiledMatch compile pattern path

/-- The filter that keeps the paths that are not left out, with all patterns compiled at once. -/
def compiledFilter (compile : String → Option (String → Bool)) (e : Exclude) : String → Bool :=
  let all := e.patterns.filterMap fun pattern => compile (expression pattern)
  fun path => !all.any fun found => found path

end Exclude

variable {compile : String → Option (String → Bool)}

/-- A compiled pattern matches what the pattern matches. -/
theorem Serves.compiledMatch_eq {pattern : String} (h : Serves compile (expression pattern))
    (path : String) : compiledMatch compile pattern path = globMatch pattern path := by
  obtain ⟨found, hcompile, hfound⟩ := h
  rw [compiledMatch, hcompile, Option.any_some, Bool.eq_iff_iff,
    hfound _ (read_expression pattern), globMatch_iff_occurs]

namespace Exclude

/-- It does not matter when the patterns are compiled. -/
theorem compiledFilter_eq (e : Exclude) (path : String) :
    e.compiledFilter compile path = !e.compiledCovers compile path := by
  have hany : ∀ patterns : List String,
      ((patterns.filterMap fun pattern => compile (expression pattern)).any
          fun found => found path) =
        patterns.any fun pattern => compiledMatch compile pattern path := by
    intro patterns
    induction patterns with
    | nil => rfl
    | cons pattern patterns ih =>
      rw [List.any_cons, ← ih, compiledMatch, List.filterMap_cons]
      rcases compile (expression pattern) with _ | found <;> rfl
  exact congrArg (!·) (hany e.patterns)

theorem compiledCovers_eq {e : Exclude}
    (h : ∀ pattern ∈ e.patterns, Serves compile (expression pattern)) (path : String) :
    e.compiledCovers compile path = e.covers path := by
  rw [compiledCovers, covers, Bool.eq_iff_iff, List.any_eq_true, List.any_eq_true]
  refine exists_congr fun pattern => and_congr_right fun hpattern => ?_
  rw [(h pattern hpattern).compiledMatch_eq path]

/-- Patterns are put behind others, each of them once. -/
theorem mem_foldl_addPattern_iff {added patterns : List String} {pattern : String} :
    pattern ∈ added.foldl addPattern patterns ↔ pattern ∈ patterns ∨ pattern ∈ added := by
  induction added generalizing patterns with
  | nil => simp
  | cons first added ih =>
    have hfirst : pattern ∈ addPattern patterns first ↔ pattern ∈ patterns ∨ pattern = first := by
      unfold addPattern
      split
      · rename_i hknown
        rw [List.contains_eq_mem, decide_eq_true_eq] at hknown
        exact (or_iff_left_of_imp fun hsame => hsame ▸ hknown).symm
      · rw [List.mem_append, List.mem_singleton]
    rw [List.foldl_cons, ih, hfirst, List.mem_cons, or_assoc]

/-- A pattern counts when it is listed, or is a default one that is not to be skipped. -/
theorem mem_patterns_iff {e : Exclude} {pattern : String} :
    pattern ∈ e.patterns ↔
      pattern ∈ e.paths ∨ e.skipDefaults = false ∧ pattern ∈ defaultExcludes := by
  rw [patterns, mem_foldl_addPattern_iff, or_comm]
  cases e.skipDefaults <;> simp

/-- A path meets a pattern that is listed, or a default one that is not to be skipped. -/
def LeavesOut (e : Exclude) (path : String) : Prop :=
  ∃ pattern, (pattern ∈ e.paths ∨ e.skipDefaults = false ∧ pattern ∈ defaultExcludes) ∧
    Meets pattern path

theorem covers_iff_leavesOut {path : String} (hpath : '\n' ∉ path.toList) (e : Exclude) :
    e.covers path = true ↔ e.LeavesOut path := by
  rw [covers, List.any_eq_true]
  exact exists_congr fun pattern => and_congr mem_patterns_iff (globMatch_iff_meets hpath pattern)

end Exclude

/-- **Patterns mean what is said of them.** A path without a line feed is matched when it is
made up as the pattern says, and it is left out when it is made up as one of the patterns
says that count. This holds of the patterns themselves and of the expressions that they are
translated into, whether these are compiled one by one or all at once. -/
theorem exclusion_iff_meets (compile : String → Option (String → Bool)) (project : Project)
    (pattern path : String) (hpath : '\n' ∉ path.toList)
    (hserves : ∀ p ∈ pattern :: project.exclude.patterns, Serves compile (expression p)) :
    (globMatch pattern path = true ↔ Meets pattern path) ∧
      (compiledMatch compile pattern path = true ↔ Meets pattern path) ∧
      (project.exclude.covers path = true ↔ project.exclude.LeavesOut path) ∧
      (project.exclude.compiledCovers compile path = true ↔ project.exclude.LeavesOut path) ∧
      (project.keeps path = false ↔ project.exclude.LeavesOut path) ∧
      (project.exclude.compiledFilter compile path = false ↔ project.exclude.LeavesOut path) := by
  obtain ⟨hpattern, hpatterns⟩ := List.forall_mem_cons.mp hserves
  have hmeets := globMatch_iff_meets hpath pattern
  have hcovers := Exclude.covers_iff_leavesOut hpath project.exclude
  refine ⟨hmeets, ?_, hcovers, ?_, ?_, ?_⟩
  · rwa [hpattern.compiledMatch_eq]
  · rwa [Exclude.compiledCovers_eq hpatterns]
  · rwa [Project.keeps, Bool.not_eq_false']
  · rwa [Exclude.compiledFilter_eq, Exclude.compiledCovers_eq hpatterns, Bool.not_eq_false']

/-- A compiler that knows the expressions of some patterns. -/
def compilerFor (patterns : List String) (text : String) : Option (String → Bool) :=
  (patterns.find? fun pattern => expression pattern == text).map globMatch

theorem serves_compilerFor {patterns : List String} {pattern : String} (h : pattern ∈ patterns) :
    Serves (compilerFor patterns) (expression pattern) := by
  have hsome : (patterns.find? fun p => expression p == expression pattern).isSome = true :=
    List.find?_isSome.mpr ⟨pattern, h, beq_self_eq_true _⟩
  obtain ⟨known, hfind⟩ := Option.isSome_iff_exists.mp hsome
  have hsame := List.find?_some hfind
  rw [beq_iff_eq] at hsame
  refine ⟨globMatch known, by rw [compilerFor, hfind, Option.map_some], ?_⟩
  intro r hr path
  rw [← hsame, read_expression, Option.some.injEq] at hr
  rw [← hr]
  exact globMatch_iff_occurs known path

/-- A project that leaves out what is generated, and what is left out by default. -/
def generatedProject : Project :=
  { Project.none "" with exclude := ⟨["generated/"], false⟩ }

theorem exclusion_iff_meets_generatedProject :
    '\n' ∉ "src/vendor/a.rs".toList ∧
      (∀ p ∈ "src/**/?.rs" :: generatedProject.exclude.patterns,
        Serves (compilerFor ("src/**/?.rs" :: generatedProject.exclude.patterns)) (expression p)) ∧
      (globMatch "src/**/?.rs" "src/vendor/a.rs" = true ↔
        Meets "src/**/?.rs" "src/vendor/a.rs") ∧
      (generatedProject.keeps "src/vendor/a.rs" = false ↔
        generatedProject.exclude.LeavesOut "src/vendor/a.rs") :=
  have hpath : '\n' ∉ "src/vendor/a.rs".toList := by decide
  have hserves : ∀ p ∈ "src/**/?.rs" :: generatedProject.exclude.patterns,
      Serves (compilerFor ("src/**/?.rs" :: generatedProject.exclude.patterns)) (expression p) :=
    fun _ hp => serves_compilerFor hp
  have hmeant := exclusion_iff_meets _ generatedProject "src/**/?.rs" _ hpath hserves
  ⟨hpath, hserves, hmeant.1, hmeant.2.2.2.2.1⟩

end Readability.Config
