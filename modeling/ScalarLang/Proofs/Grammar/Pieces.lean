import Mathlib.Data.String.Basic
import Mathlib.Data.List.TakeWhile
import ScalarLang.Proofs.Grammar.Shift
import ScalarLang.Token.Stream

/-!
# Pieces of parts of a text

The scanner cuts a text into longest matches, so what follows a part of it can change the
part's last piece. It does not when it starts with the same character as before, or when
there is nothing of it, or when a line end in front is followed by something that is not
blank: a line end is a blank or closes a comment (`Scanner.pieces_cut`).
-/

namespace ScalarLang

namespace Scanner

/-- What is behind some text can be `after'` instead of `after`: it starts with the same character,
or it is not blank and the text ends with a newline. -/
def Resumes (text after after' : List Char) : Prop :=
  ∀ c ∈ after'.head?,
    after.head? = some c ∨ (isBlank c = false ∧ ∀ x ∈ text.getLast?, x = '\n')

/-- Behind a piece without newlines nothing else can start. -/
theorem Resumes.head? {x : Char} {body after after' : List Char}
    (h : Resumes (x :: body) after after') (hpiece : '\n' ∉ x :: body) :
    ∀ c ∈ after'.head?, after.head? = some c := by
  intro c hc
  refine (h c hc).resolve_right fun hline => hpiece ?_
  have hlast := List.getLast?_eq_some_getLast (List.cons_ne_nil x body)
  exact List.mem_of_getLast? (hline.2 _ hlast ▸ hlast)

/-- The end of a text ends with a newline if the text does. -/
theorem Resumes.append_left {u v after after' : List Char} (h : Resumes (u ++ v) after after') :
    Resumes v after after' := by
  intro c hc
  refine (h c hc).imp_right fun hline => ⟨hline.1, fun x hx => hline.2 x ?_⟩
  rw [Option.mem_def] at hx ⊢
  rw [List.getLast?_append, hx, Option.some_or]

/-- The start of a text goes on as before. -/
theorem Resumes.of_append {u v after after' : List Char} (h : Resumes (u ++ v) after after') :
    Resumes u (v ++ after) (v ++ after') := by
  intro c hc
  cases v with
  | nil =>
      rw [List.append_nil] at h
      exact h c hc
  | cons x v => exact .inl hc

theorem forall_head?_dropWhile (p : Char → Bool) (text : List Char) :
    ∀ c, (text.dropWhile p).head? = some c → p c = false := by
  intro c hc
  have h := List.head?_dropWhile_not p text
  rw [hc] at h
  simpa using h

theorem takeWhile_dropWhile_append {p : Char → Bool} {body : List Char} (after : List Char)
    (hbody : ∀ c ∈ body, p c = true) (hafter : ∀ c ∈ after.head?, p c = false) :
    (body ++ after).takeWhile p = body ∧ (body ++ after).dropWhile p = after := by
  rw [List.takeWhile_append_of_pos hbody, List.dropWhile_append_of_pos hbody]
  cases after with
  | nil => exact ⟨List.append_nil _, rfl⟩
  | cons c after =>
      have hc : p c = false := hafter c rfl
      simp [hc]

/-- A run of characters that are not newlines is the same in front of what resumes it. -/
theorem takeWhile_dropWhile_of_resumes {p : Char → Bool} (hp : p '\n' = false) {x : Char}
    (hx : x ≠ '\n') {rest after' : List Char}
    (h : Resumes (x :: rest.takeWhile p) (rest.dropWhile p) after') :
    (rest.takeWhile p ++ after').takeWhile p = rest.takeWhile p ∧
      (rest.takeWhile p ++ after').dropWhile p = after' := by
  have hrun : ∀ c ∈ rest.takeWhile p, p c = true := fun c hc => List.mem_takeWhile_imp hc
  refine takeWhile_dropWhile_append after' hrun fun c hc => ?_
  refine forall_head?_dropWhile p rest c (h.head? (fun hmem => ?_) c hc)
  rcases List.mem_cons.1 hmem with heq | hmem
  · exact hx heq.symm
  · rw [hrun _ hmem] at hp
    cases hp

theorem takeWhile_dropWhile_of_resumes_blank {x : Char} {rest after' : List Char}
    (h : Resumes (x :: rest.takeWhile isBlank) (rest.dropWhile isBlank) after') :
    (rest.takeWhile isBlank ++ after').takeWhile isBlank = rest.takeWhile isBlank ∧
      (rest.takeWhile isBlank ++ after').dropWhile isBlank = after' := by
  refine takeWhile_dropWhile_append after' (fun c hc => List.mem_takeWhile_imp hc) fun c hc => ?_
  exact (h c hc).elim (forall_head?_dropWhile isBlank rest c) And.left

theorem commentTail_closed {body rest : List Char} {terminator : Char}
    (hbody : ∀ c ∈ body, isLineEnd c = false) (hterminator : isLineEnd terminator = true) :
    commentTail (body ++ terminator :: rest) = (body ++ [terminator], rest) := by
  obtain ⟨htake, hdrop⟩ := takeWhile_dropWhile_append (p := (!isLineEnd ·)) (terminator :: rest)
    (by simpa using hbody) (by simpa using hterminator)
  simp only [commentTail, htake, hdrop]

theorem commentTail_open {body : List Char} (hbody : ∀ c ∈ body, isLineEnd c = false) :
    commentTail body = (body, []) := by
  obtain ⟨htake, hdrop⟩ := takeWhile_dropWhile_append (p := (!isLineEnd ·)) []
    (by simpa using hbody) nofun
  rw [List.append_nil] at htake hdrop
  simp only [commentTail, htake, hdrop]

/-- A comment is open, and then it goes on to the end, or a line end closes it. -/
theorem commentTail_cases (rest : List Char) : ∃ body, (∀ c ∈ body, isLineEnd c = false) ∧
    (commentTail rest = (body, []) ∨ ∃ terminator after, isLineEnd terminator = true ∧
      commentTail rest = (body ++ [terminator], after)) := by
  have hbody : ∀ c ∈ rest.takeWhile (!isLineEnd ·), isLineEnd c = false := fun c hc => by
    simpa using List.mem_takeWhile_imp hc
  have hend := forall_head?_dropWhile (!isLineEnd ·) rest
  refine ⟨_, hbody, ?_⟩
  unfold commentTail
  cases hbehind : rest.dropWhile (!isLineEnd ·) with
  | nil => exact .inl rfl
  | cons terminator after =>
      rw [hbehind] at hend
      exact .inr ⟨terminator, after, by simpa using hend terminator rfl, rfl⟩

theorem commentTail_of_resumes {x : Char} (hx : x ≠ '\n') {rest after' : List Char}
    (h : Resumes (x :: (commentTail rest).1) (commentTail rest).2 after') :
    commentTail ((commentTail rest).1 ++ after') = ((commentTail rest).1, after') := by
  obtain ⟨body, hbody, htail | ⟨terminator, after, hterminator, htail⟩⟩ := commentTail_cases rest
  · rw [htail] at h ⊢
    -- The comment is open, so nothing can follow it.
    have hopen : '\n' ∉ x :: body := fun hmem => by
      rcases List.mem_cons.1 hmem with heq | hmem
      · exact hx heq.symm
      · cases hbody _ hmem
    obtain rfl : after' = [] := List.head?_eq_none_iff.1 <|
      Option.eq_none_iff_forall_ne_some.2 fun c hc => nomatch h.head? hopen c hc
    rw [List.append_nil]
    exact commentTail_open hbody
  · rw [htail, List.append_assoc]
    exact commentTail_closed hbody hterminator

theorem isWordChar_newline : isWordChar '\n' = false := by decide

theorem isNumeralChar_newline : Decimal.isNumeralChar '\n' = false := by decide

/-- A piece is the same in front of what resumes the text behind it. -/
theorem split_of_resumes {x : Char} {rest after' : List Char}
    (h : Resumes (split x rest).1.text (split x rest).2 after') :
    ∃ body, (split x rest).1.text = x :: body ∧
      split x (body ++ after') = ((split x rest).1, after') := by
  unfold split at h ⊢
  by_cases hblank : isBlank x
  · simp only [hblank, if_true] at h ⊢
    obtain ⟨htake, hdrop⟩ := takeWhile_dropWhile_of_resumes_blank h
    exact ⟨_, rfl, by rw [htake, hdrop]⟩
  have hx : x ≠ '\n' := by
    rintro rfl
    exact hblank rfl
  simp only [hblank, Bool.false_eq_true, if_false] at h ⊢
  by_cases hcomment : x == '#'
  · simp only [hcomment, if_true] at h ⊢
    have htail := commentTail_of_resumes hx h
    exact ⟨_, rfl, by rw [htail]⟩
  simp only [hcomment, Bool.false_eq_true, if_false] at h ⊢
  by_cases hword : x.isAlpha
  · simp only [hword, if_true] at h ⊢
    obtain ⟨htake, hdrop⟩ := takeWhile_dropWhile_of_resumes isWordChar_newline hx h
    exact ⟨_, rfl, by rw [htake, hdrop]⟩
  simp only [hword, Bool.false_eq_true, if_false] at h ⊢
  by_cases hdigit : x.isDigit
  · simp only [hdigit, if_true] at h ⊢
    obtain ⟨htake, hdrop⟩ := takeWhile_dropWhile_of_resumes isNumeralChar_newline hx h
    exact ⟨_, rfl, by rw [htake, hdrop]⟩
  simp only [hdigit, Bool.false_eq_true, if_false] at h ⊢
  split
  · exact ⟨[], rfl, rfl⟩
  · exact ⟨[], rfl, rfl⟩

/-- The pieces of a part in front are those of the whole text, if what is behind the part resumes
it. -/
theorem pieces_cut {text : List Char} {before after : List Piece}
    (h : pieces text = before ++ after) {text' : List Char}
    (hresumes : Resumes (before.flatMap Piece.text) (after.flatMap Piece.text) text') :
    pieces (before.flatMap Piece.text ++ text') = before ++ pieces text' := by
  induction before generalizing text with
  | nil => rfl
  | cons piece before ih =>
      cases text with
      | nil =>
          rw [pieces_nil] at h
          cases h
      | cons x rest =>
          rw [pieces_cons, List.cons_append] at h
          obtain ⟨rfl, hrest⟩ := List.cons.inj h
          have hbehind : (split x rest).2 =
              before.flatMap Piece.text ++ after.flatMap Piece.text := by
            rw [← flatMap_text_pieces (split x rest).2, hrest, List.flatMap_append]
          rw [List.flatMap_cons] at hresumes
          have hpiece : Resumes (split x rest).1.text (split x rest).2
              (before.flatMap Piece.text ++ text') := by
            rw [hbehind]
            exact hresumes.of_append
          obtain ⟨body, hbody, hsplit⟩ := split_of_resumes hpiece
          rw [List.flatMap_cons, hbody, List.append_assoc, List.cons_append, pieces_cons, hsplit,
            ih hrest hresumes.append_left]
          rfl

/-- The pieces of the text of consecutive pieces are these. -/
theorem pieces_flatMap_text {text : List Char} {before middle after : List Piece}
    (h : pieces text = before ++ (middle ++ after)) :
    pieces (middle.flatMap Piece.text) = middle := by
  have hbehind : pieces ((middle ++ after).flatMap Piece.text) = middle ++ after := by
    have hcut := pieces_cut h fun c hc => .inl hc
    rw [← List.flatMap_append, ← h, flatMap_text_pieces] at hcut
    exact (List.append_cancel_left (h.symm.trans hcut)).symm
  have hend : Resumes (middle.flatMap Piece.text) (after.flatMap Piece.text) [] := nofun
  have hcut := pieces_cut hbehind hend
  rwa [List.append_nil, pieces_nil, List.append_nil] at hcut

/-! ### Places -/

theorem byteLength_eq_utf8Len (text : List Char) : byteLength text = String.utf8Len text := by
  induction text with
  | nil => rfl
  | cons c text ih =>
      rw [String.utf8Len_cons, ← ih, Nat.add_comm]
      rfl

theorem byteLength_append (text text' : List Char) :
    byteLength (text ++ text') = byteLength text + byteLength text' := by
  rw [byteLength_eq_utf8Len, byteLength_eq_utf8Len, byteLength_eq_utf8Len, String.utf8Len_append]

theorem byteLength_toList (source : String) : byteLength source.toList = source.utf8ByteSize := by
  rw [byteLength_eq_utf8Len, ← String.utf8ByteSize_ofList, String.ofList_toList]

/-- Pieces with more bytes in front. -/
theorem locate_add (start offset : Nat) (parts : List Piece) :
    locate (start + offset) parts = (locate start parts).map (Lexeme.shift offset) := by
  induction parts generalizing start with
  | nil => rfl
  | cons piece parts ih =>
      rw [locate, locate, Nat.add_right_comm, ih]
      split <;> rfl

theorem locate_eq_map_shift (offset : Nat) (parts : List Piece) :
    locate offset parts = (locate 0 parts).map (Lexeme.shift offset) := by
  rw [← locate_add, Nat.zero_add]

theorem span_of_mem_locate {offset : Nat} {parts : List Piece} {x : Lexeme}
    (h : x ∈ locate offset parts) : offset ≤ x.span.start ∧ x.span.start ≤ x.span.stop := by
  induction parts generalizing offset with
  | nil => cases h
  | cons piece parts ih =>
      rw [locate] at h
      split at h
      · rcases List.mem_cons.1 h with rfl | h
        · exact ⟨Nat.le_refl _, Nat.le_add_right _ _⟩
        · exact ⟨Nat.le_trans (Nat.le_add_right _ _) (ih h).1, (ih h).2⟩
      · exact ⟨Nat.le_trans (Nat.le_add_right _ _) (ih h).1, (ih h).2⟩

theorem pairwise_locate (offset : Nat) (parts : List Piece) :
    (locate offset parts).Pairwise fun x y => x.span.stop ≤ y.span.start := by
  induction parts generalizing offset with
  | nil => exact .nil
  | cons piece parts ih =>
      rw [locate]
      split
      · exact .cons (fun y hy => (span_of_mem_locate hy).1) (ih _)
      · exact ih _

/-- Where the tokens of consecutive pieces are taken apart, the pieces are: behind the last token
in front, if there is one. -/
theorem exists_of_locate_eq_append {offset : Nat} {parts : List Piece} {u v : List Lexeme}
    (h : locate offset parts = u ++ v) :
    ∃ before after, parts = before ++ after ∧ locate offset before = u ∧
      locate (offset + byteLength (before.flatMap Piece.text)) after = v ∧
      offset + byteLength (before.flatMap Piece.text) =
        (u.getLast?.map (·.span.stop)).getD offset := by
  induction parts generalizing offset u with
  | nil =>
      obtain ⟨rfl, rfl⟩ := List.append_eq_nil_iff.1 h.symm
      exact ⟨[], [], rfl, rfl, rfl, rfl⟩
  | cons piece parts ih =>
      cases u with
      | nil => exact ⟨[], piece :: parts, rfl, rfl, h, rfl⟩
      | cons x u =>
          rw [locate] at h
          split at h
          next token htoken =>
            obtain ⟨rfl, htail⟩ := List.cons.inj h
            obtain ⟨before, after, rfl, hbefore, hafter, hstop⟩ := ih htail
            refine ⟨piece :: before, after, rfl, ?_, ?_, ?_⟩
            · rw [locate, htoken, ← hbefore]
            · rw [List.flatMap_cons, byteLength_append, ← Nat.add_assoc]
              exact hafter
            · rw [List.flatMap_cons, byteLength_append, ← Nat.add_assoc, hstop, List.getLast?_cons]
              cases u.getLast? <;> rfl
          next htoken =>
            obtain ⟨before, after, rfl, hbefore, hafter, hstop⟩ := ih h
            refine ⟨piece :: before, after, rfl, ?_, ?_, ?_⟩
            · rw [locate, htoken, ← hbefore]
            · rw [List.flatMap_cons, byteLength_append, ← Nat.add_assoc]
              exact hafter
            · rw [List.flatMap_cons, byteLength_append, ← Nat.add_assoc, hstop, List.getLast?_cons]
              rfl

/-- The pieces in front of the first token carry none. -/
theorem exists_of_locate_eq_cons {offset : Nat} {parts : List Piece} {x : Lexeme}
    {v : List Lexeme} (h : locate offset parts = x :: v) :
    ∃ before after, parts = before ++ after ∧ locate x.span.start after = x :: v ∧
      offset + byteLength (before.flatMap Piece.text) = x.span.start := by
  induction parts generalizing offset with
  | nil => cases h
  | cons piece parts ih =>
      have h' := h
      rw [locate] at h
      split at h
      next token htoken =>
        obtain ⟨rfl, -⟩ := List.cons.inj h
        exact ⟨[], piece :: parts, rfl, h', rfl⟩
      next htoken =>
        obtain ⟨before, after, rfl, hafter, hstart⟩ := ih h
        refine ⟨piece :: before, after, rfl, hafter, ?_⟩
        rw [List.flatMap_cons, byteLength_append, ← Nat.add_assoc, hstart]

end Scanner

end ScalarLang
