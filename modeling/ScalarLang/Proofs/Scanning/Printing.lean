import Mathlib.Data.List.Chain
import ScalarLang.Proofs.Scanning.Partition

/-!
# Printing tokens and scanning them again

A list of tokens is printed with layout of any kind in front of each token and behind the last.
Between two tokens the layout may be missing if one of them is a punctuator: then neither can go
on into the other. Scanning what was printed gives the tokens back, each where its text was put
(`tokenize_print`).
-/

namespace ScalarLang

namespace Scanner

/-- A token is the longest match in front of what it cannot go on with, and a punctuator in front
of anything. -/
theorem Munch.of_boundary {token : Token} {text after : List Char} (h : Munch token text [])
    (hafter : (∃ p, token = .punctuator p) ∨ ∀ c ∈ after.head?, goesOn c = false) :
    Munch token text after := by
  rcases hafter with ⟨p, rfl⟩ | hafter
  · cases h
    exact .punctuator p after
  · have hword : ∀ c ∈ after.head?, isWordChar c = false := fun c hc =>
      (Bool.or_eq_false_iff.1 (hafter c hc)).1
    have hnumeral : ∀ c ∈ after.head?, Decimal.isNumeralChar c = false := fun c hc =>
      (Bool.or_eq_false_iff.1 (hafter c hc)).2
    cases h with
    | keyword h hk => exact .keyword ⟨h.run, hword⟩ hk
    | identifier h hne => exact .identifier ⟨h.run, hword⟩ hne
    | number h hvalue => exact .number ⟨h.run, hnumeral⟩ hvalue
    | malformed h hpoints => exact .malformed ⟨h.run, hnumeral⟩ hpoints
    | punctuator p => exact .punctuator p after
    | stray hc => exact .stray hc

/-- A token to be printed: its text, and the layout in front of it. -/
structure Item where
  gap : List Char
  text : List Char
  token : Token
  layout : Layout gap
  /-- The text has no other token. -/
  munch : Munch token text []

namespace Item

/-- A keyword or an identifier. -/
def word {gap text : List Char} (hgap : Layout gap) (h : Run Char.isAlpha isWordChar text []) :
    Item :=
  ⟨gap, text, wordToken text, hgap, munch_wordToken h⟩

/-- A number, or an unknown token with too many points. -/
def numeral {gap text : List Char} (hgap : Layout gap)
    (h : Run Char.isDigit Decimal.isNumeralChar text []) : Item :=
  ⟨gap, text, numeralToken text, hgap, munch_numeralToken h⟩

def punctuator {gap : List Char} (hgap : Layout gap) (p : Punctuator) : Item :=
  ⟨gap, [p.char], .punctuator p, hgap, .punctuator p []⟩

/-- There is layout between the tokens, or one of them is a punctuator. -/
def Separate (x y : Item) : Prop :=
  y.gap ≠ [] ∨ (∃ p, x.token = .punctuator p) ∨ ∃ p, y.token = .punctuator p

end Item

/-- The text of consecutive tokens, with some layout behind the last. -/
def print : List Item → List Char → List Char
  | [], trailing => trailing
  | item :: items, trailing => item.gap ++ (item.text ++ print items trailing)

/-- The tokens at the places where their texts are put. -/
def place (offset : Nat) : List Item → List Lexeme
  | [] => []
  | item :: items =>
    let start := offset + byteLength item.gap
    let stop := start + byteLength item.text
    ⟨item.token, ⟨start, stop⟩⟩ :: place stop items

/-- Nothing goes on into layout. -/
theorem Layout.goesOn_head? {gap : List Char} (h : Layout gap) :
    ∀ c ∈ gap.head?, goesOn c = false := by
  cases h with
  | nil => nofun
  | blank hc =>
      rintro _ ⟨⟩
      exact goesOn_of_isBlank hc
  | comment =>
      rintro _ ⟨⟩
      exact goesOn_hash

theorem Trailer.goesOn_head? {gap : List Char} (h : Trailer gap) :
    ∀ c ∈ gap.head?, goesOn c = false := by
  cases h with
  | layout h => exact h.goesOn_head?
  | @comment gap body h =>
      intro c hc
      cases gap with
      | nil =>
          obtain rfl : '#' = c := Option.some.inj hc
          exact goesOn_hash
      | cons d gap => exact h.goesOn_head? c hc

/-- A token that is separate from the next one does not go on into it. -/
theorem Item.Separate.boundary {x y : Item} (h : x.Separate y) (rest : List Char) :
    (∃ p, x.token = .punctuator p) ∨
      ∀ c ∈ (y.gap ++ (y.text ++ rest)).head?, goesOn c = false := by
  cases hgap : y.gap with
  | cons d gap => exact .inr fun c hc => y.layout.goesOn_head? c (hgap ▸ hc)
  | nil =>
      -- Without layout the second token has to be the punctuator, if the first is none.
      refine (h.resolve_left (not_not_intro hgap)).imp_right ?_
      rintro ⟨p, hp⟩ c hc
      have hmunch := y.munch
      rw [hp] at hmunch
      generalize y.text = text at hmunch hc
      cases hmunch
      obtain rfl : p.char = c := Option.some.inj hc
      exact goesOn_char p

theorem scans_print {items : List Item} (hitems : items.IsChain Item.Separate)
    {trailing : List Char} (htrailing : Trailer trailing) (offset : Nat) :
    Scans offset (print items trailing) (place offset items) := by
  induction items generalizing offset with
  | nil => exact .done htrailing
  | cons x items ih =>
      refine .token x.layout (x.munch.of_boundary ?_) rfl rfl (ih hitems.tail _)
      cases items with
      | nil => exact .inr htrailing.goesOn_head?
      | cons y items => exact (List.isChain_cons_cons.1 hitems).1.boundary _

end Scanner

/-- Scanning printed tokens gives them back, whatever the layout. -/
theorem tokenize_print {items : List Scanner.Item} (hitems : items.IsChain Scanner.Item.Separate)
    {trailing : List Char} (htrailing : Scanner.Trailer trailing) :
    tokenize (String.ofList (Scanner.print items trailing)) = Scanner.place 0 items ++
      [⟨.endOfInput, .empty (Scanner.byteLength (Scanner.print items trailing))⟩] := by
  have hscans := Scanner.scans_iff.1 (Scanner.scans_print hitems htrailing 0)
  have hbytes := Scanner.byteLength_toList (String.ofList (Scanner.print items trailing))
  rw [String.toList_ofList] at hbytes
  rw [tokenize, TokenStream.toList, TokenStream.final, TokenStream.ofSource, String.toList_ofList,
    Scanner.lexemes, hscans, hbytes]

/-- A comment is all the layout there is between two words, and the last one is open. -/
theorem tokenize_print_comments :
    ∃ items trailing, items.IsChain Scanner.Item.Separate ∧ Scanner.Trailer trailing ∧
      Scanner.print items trailing = "def#é\nx(1.2.3#".toList ∧
      tokenize "def#é\nx(1.2.3#" = Scanner.place 0 items ++ [⟨.endOfInput, .empty 15⟩] ∧
      Scanner.place 0 items = [⟨.keyword .definition, ⟨0, 3⟩⟩, ⟨.identifier "x", ⟨7, 8⟩⟩,
        ⟨.punctuator .openParen, ⟨8, 9⟩⟩, ⟨.unknown "1.2.3", ⟨9, 14⟩⟩] := by
  have hcomment : Scanner.Layout ['#', 'é', '\n'] :=
    @Scanner.Layout.comment ['é'] '\n' [] (List.forall_mem_singleton.2 rfl) rfl .nil
  have htrailing : Scanner.Trailer ['#'] := @Scanner.Trailer.comment [] [] .nil nofun
  have hkeyword : Scanner.Run Char.isAlpha Scanner.isWordChar ['d', 'e', 'f'] [] :=
    ⟨⟨'d', ['e', 'f'], rfl, rfl, List.all_eq_true.1 rfl⟩, nofun⟩
  have hname : Scanner.Run Char.isAlpha Scanner.isWordChar ['x'] [] :=
    ⟨⟨'x', [], rfl, rfl, nofun⟩, nofun⟩
  have hnumeral : Scanner.Run Char.isDigit Decimal.isNumeralChar ['1', '.', '2', '.', '3'] [] :=
    ⟨⟨'1', ['.', '2', '.', '3'], rfl, rfl, List.all_eq_true.1 rfl⟩, nofun⟩
  let items : List Scanner.Item := [.word .nil hkeyword, .word hcomment hname,
    .punctuator .nil .openParen, .numeral .nil hnumeral]
  have hitems : items.IsChain Scanner.Item.Separate :=
    .cons_cons (.inl (List.cons_ne_nil _ _)) (.cons_cons (.inr (.inr ⟨_, rfl⟩))
      (.cons_cons (.inr (.inl ⟨_, rfl⟩)) (.singleton _)))
  have htext : Scanner.print items ['#'] = "def#é\nx(1.2.3#".toList := rfl
  have htokens := tokenize_print hitems htrailing
  rw [htext, String.ofList_toList] at htokens
  exact ⟨items, ['#'], hitems, htrailing, htext, htokens, rfl⟩

end ScalarLang
