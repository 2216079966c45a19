import Mathlib.Data.List.Forall2
import Opencode.Lib.Decimal

/-!
# JSON texts

The grammar of RFC 8259, as relations between a text and the value it stands for.  A text is a
list of characters; its bytes are its UTF-8 encoding.

The grammar of a string also derives an escaped surrogate without its partner.  Such an escape
stands for no character, and a string that has one stands for no value here.

## Main definitions

* `Json` — the values.
* `IsNumber`, `IsBody`, `IsValue`, `IsMember` — the grammar.
* `Unescaped` — the characters that stand for themselves.
* `utf8` — the bytes of a text.
* `isMember_iff_of_name` — a member that has the name itself between its quotes.
-/

namespace Opencode.Lib

/-- A JSON value. -/
inductive Json
  | null
  | bool (x : Bool)
  | num (x : ℚ)
  | str (x : List Char)
  | arr (elems : List Json)
  | obj (members : List (List Char × Json))

namespace Json

/-! ## White space -/

/-- Space, tab, line feed and carriage return. -/
def IsWs (c : Char) : Prop := c = ' ' ∨ c = '\t' ∨ c = '\n' ∨ c = '\r'

instance (c : Char) : Decidable (IsWs c) := inferInstanceAs (Decidable (_ ∨ _))

/-- A run of white space. -/
def Ws (cs : List Char) : Prop := ∀ c ∈ cs, IsWs c

/-- A structural character, with the white space around it. -/
def Token (c : Char) (cs : List Char) : Prop := ∃ w w', Ws w ∧ Ws w' ∧ cs = w ++ c :: w'

/-! ## Numbers -/

/-- A zero, or digits that do not start with one. -/
def IsInt (cs : List Char) : Prop := IsDigits cs ∧ (cs.head? = some '0' → cs = ['0'])

/-- Nothing, or a point and digits; the value is that of the digits behind the point. -/
inductive IsFrac : List Char → ℚ → Prop
  | none : IsFrac [] 0
  | point {cs : List Char} (h : IsDigits cs) :
      IsFrac ('.' :: cs) ((Nat.ofDigitChars 10 cs 0 : ℕ) / 10 ^ cs.length)

/-- Nothing, or a sign and digits behind the letter. -/
inductive IsExp : List Char → ℤ → Prop
  | none : IsExp [] 0
  | unsigned {e : Char} {cs : List Char} (he : e = 'e' ∨ e = 'E') (h : IsDigits cs) :
      IsExp (e :: cs) (Nat.ofDigitChars 10 cs 0 : ℕ)
  | plus {e : Char} {cs : List Char} (he : e = 'e' ∨ e = 'E') (h : IsDigits cs) :
      IsExp (e :: '+' :: cs) (Nat.ofDigitChars 10 cs 0 : ℕ)
  | minus {e : Char} {cs : List Char} (he : e = 'e' ∨ e = 'E') (h : IsDigits cs) :
      IsExp (e :: '-' :: cs) (-(Nat.ofDigitChars 10 cs 0 : ℕ))

/-- A number; the minus is its only sign. -/
inductive IsNumber : List Char → ℚ → Prop
  | unsigned {int frac exp : List Char} {x : ℚ} {k : ℤ} (hint : IsInt int)
      (hfrac : IsFrac frac x) (hexp : IsExp exp k) :
      IsNumber (int ++ frac ++ exp) (((Nat.ofDigitChars 10 int 0 : ℕ) + x) * 10 ^ k)
  | minus {int frac exp : List Char} {x : ℚ} {k : ℤ} (hint : IsInt int)
      (hfrac : IsFrac frac x) (hexp : IsExp exp k) :
      IsNumber ('-' :: (int ++ frac ++ exp)) (-(((Nat.ofDigitChars 10 int 0 : ℕ) + x) * 10 ^ k))

/-! ## Strings -/

/-- A character that stands for itself in a string. -/
def Unescaped (c : Char) : Prop := 0x20 ≤ c.toNat ∧ c ≠ '\"' ∧ c ≠ '\\'

instance (c : Char) : Decidable (Unescaped c) := inferInstanceAs (Decidable (_ ∧ _))

/-- The value of a hexadecimal digit. -/
def hexDigit (c : Char) : Option ℕ :=
  if c.isDigit then some (c.toNat - '0'.toNat)
  else if 'a' ≤ c ∧ c ≤ 'f' then some (c.toNat - 'a'.toNat + 10)
  else if 'A' ≤ c ∧ c ≤ 'F' then some (c.toNat - 'A'.toNat + 10)
  else none

/-- The code unit of four hexadecimal digits. -/
def codeUnit : List Char → Option ℕ
  | [a, b, c, d] => do
      let a ← hexDigit a
      let b ← hexDigit b
      let c ← hexDigit c
      let d ← hexDigit d
      some (((a * 16 + b) * 16 + c) * 16 + d)
  | _ => none

/-- What stands behind a backslash, and the character it makes with it. -/
inductive IsEscape : List Char → Char → Prop
  | quote : IsEscape ['\"'] '\"'
  | backslash : IsEscape ['\\'] '\\'
  | slash : IsEscape ['/'] '/'
  | backspace : IsEscape ['b'] '\x08'
  | formFeed : IsEscape ['f'] '\x0c'
  | lineFeed : IsEscape ['n'] '\n'
  | carriageReturn : IsEscape ['r'] '\r'
  | tab : IsEscape ['t'] '\t'
  | unicode {ds : List Char} {c : Char} (h : codeUnit ds = some c.toNat) :
      IsEscape ('u' :: ds) c
  | surrogates {ds ds' : List Char} {hi lo : ℕ} {c : Char} (h : codeUnit ds = some (0xD800 + hi))
      (h' : codeUnit ds' = some (0xDC00 + lo)) (hhi : hi < 0x400) (hlo : lo < 0x400)
      (hc : c.toNat = 0x10000 + hi * 0x400 + lo) :
      IsEscape ('u' :: ds ++ '\\' :: 'u' :: ds') c

/-- What stands between the quotes of a string, and the text it stands for. -/
inductive IsBody : List Char → List Char → Prop
  | nil : IsBody [] []
  | unescaped {c : Char} {raw s : List Char} (hc : Unescaped c) (h : IsBody raw s) :
      IsBody (c :: raw) (c :: s)
  | escaped {e : List Char} {c : Char} {raw s : List Char} (he : IsEscape e c)
      (h : IsBody raw s) : IsBody ('\\' :: (e ++ raw)) (c :: s)

/-- A string. -/
def IsString (cs s : List Char) : Prop := ∃ raw, cs = '\"' :: (raw ++ ['\"']) ∧ IsBody raw s

/-! ## Values -/

mutual

inductive IsValue : List Char → Json → Prop
  | null : IsValue "null".toList .null
  | true : IsValue "true".toList (.bool true)
  | false : IsValue "false".toList (.bool false)
  | num {cs : List Char} {x : ℚ} (h : IsNumber cs x) : IsValue cs (.num x)
  | str {cs s : List Char} (h : IsString cs s) : IsValue cs (.str s)
  | emptyArr {b e : List Char} (hb : Token '[' b) (he : Token ']' e) : IsValue (b ++ e) (.arr [])
  | arr {b cs e : List Char} {js : List Json} (hb : Token '[' b) (h : IsElements cs js)
      (he : Token ']' e) : IsValue (b ++ cs ++ e) (.arr js)
  | emptyObj {b e : List Char} (hb : Token '{' b) (he : Token '}' e) : IsValue (b ++ e) (.obj [])
  | obj {b cs e : List Char} {ms : List (List Char × Json)} (hb : Token '{' b)
      (h : IsMembers cs ms) (he : Token '}' e) : IsValue (b ++ cs ++ e) (.obj ms)

/-- Values with a comma between two of them. -/
inductive IsElements : List Char → List Json → Prop
  | one {cs : List Char} {j : Json} (h : IsValue cs j) : IsElements cs [j]
  | more {cs sep rest : List Char} {j : Json} {js : List Json} (h : IsValue cs j)
      (hsep : Token ',' sep) (hrest : IsElements rest js) :
      IsElements (cs ++ sep ++ rest) (j :: js)

/-- Members with a comma between two of them. -/
inductive IsMembers : List Char → List (List Char × Json) → Prop
  | one {cs name : List Char} {j : Json} (h : IsMember cs name j) : IsMembers cs [(name, j)]
  | more {cs sep rest name : List Char} {j : Json} {ms : List (List Char × Json)}
      (h : IsMember cs name j) (hsep : Token ',' sep) (hrest : IsMembers rest ms) :
      IsMembers (cs ++ sep ++ rest) ((name, j) :: ms)

/-- A member of an object: its name, a colon and its value. -/
inductive IsMember : List Char → List Char → Json → Prop
  | mk {key sep cs name : List Char} {j : Json} (hkey : IsString key name)
      (hsep : Token ':' sep) (h : IsValue cs j) : IsMember (key ++ sep ++ cs) name j

end

/-! ## How a text starts -/

variable {c d o : Char} {cs rest val name : List Char} {j : Json}

theorem Ws.of_cons (h : Ws (c :: cs)) : IsWs c ∧ Ws cs := List.forall_mem_cons.mp h

/-- A structural character comes first, or white space that can be left out. -/
theorem Token.of_cons (h : Token c (d :: cs)) : d = c ∧ Ws cs ∨ IsWs d ∧ Token c cs := by
  obtain ⟨w, w', hw, hw', heq⟩ := h
  cases w with
  | nil =>
      obtain ⟨rfl, rfl⟩ := List.cons.inj heq
      exact .inl ⟨rfl, hw'⟩
  | cons x w =>
      obtain ⟨rfl, rfl⟩ := List.cons.inj heq
      exact .inr ⟨hw.of_cons.1, w, w', hw.of_cons.2, hw', rfl⟩

theorem Token.exists_cons (h : Token c cs) : ∃ d rest, cs = d :: rest ∧ (d = c ∨ IsWs d) := by
  cases cs with
  | nil =>
      obtain ⟨w, w', -, -, heq⟩ := h
      simp at heq
  | cons d rest => exact ⟨d, rest, rfl, h.of_cons.imp And.left And.left⟩

theorem IsInt.exists_cons (h : IsInt cs) : ∃ d rest, cs = d :: rest ∧ d.isDigit = true := by
  obtain ⟨d, rest, rfl⟩ := List.exists_cons_of_ne_nil h.1.1
  exact ⟨d, rest, rfl, h.1.2 d List.mem_cons_self⟩

theorem IsNumber.exists_cons {x : ℚ} (h : IsNumber cs x) :
    ∃ d rest, cs = d :: rest ∧ (d = '-' ∨ d.isDigit = true) := by
  cases h with
  | unsigned hint _ _ =>
      obtain ⟨d, rest, rfl, hd⟩ := hint.exists_cons
      exact ⟨d, _, rfl, .inr hd⟩
  | minus _ _ _ => exact ⟨'-', _, rfl, .inl rfl⟩

/-- The characters a value starts with. -/
def StartsValue (c : Char) : Prop :=
  IsWs c ∨ c.isDigit = true ∨ c ∈ ['n', 't', 'f', '-', '\"', '[', '{']

instance (c : Char) : Decidable (StartsValue c) := inferInstanceAs (Decidable (_ ∨ _))

theorem Token.startsValue (h : Token o cs) (ho : o ∈ ['[', '{']) (rest : List Char) :
    ∃ d tail, cs ++ rest = d :: tail ∧ StartsValue d := by
  obtain ⟨d, tail, rfl, rfl | hd⟩ := h.exists_cons
  · refine ⟨d, _, rfl, .inr (.inr ?_)⟩
    simp only [List.mem_cons] at ho ⊢
    tauto
  · exact ⟨d, _, rfl, .inl hd⟩

theorem IsValue.exists_cons (h : IsValue cs j) : ∃ d rest, cs = d :: rest ∧ StartsValue d := by
  cases h with
  | null => exact ⟨'n', _, rfl, by decide⟩
  | true => exact ⟨'t', _, rfl, by decide⟩
  | false => exact ⟨'f', _, rfl, by decide⟩
  | num h =>
      obtain ⟨d, rest, rfl, rfl | hd⟩ := h.exists_cons
      · exact ⟨'-', rest, rfl, by decide⟩
      · exact ⟨d, rest, rfl, .inr (.inl hd)⟩
  | str h =>
      obtain ⟨raw, rfl, -⟩ := h
      exact ⟨'\"', _, rfl, by decide⟩
  | emptyArr hb _ => exact hb.startsValue (by decide) _
  | emptyObj hb _ => exact hb.startsValue (by decide) _
  | arr hb _ _ =>
      rw [List.append_assoc]
      exact hb.startsValue (by decide) _
  | obj hb _ _ =>
      rw [List.append_assoc]
      exact hb.startsValue (by decide) _

theorem IsElements.exists_cons {js : List Json} (h : IsElements cs js) :
    ∃ d rest, cs = d :: rest ∧ StartsValue d := by
  cases h with
  | one h => exact h.exists_cons
  | more h _ _ =>
      obtain ⟨d, rest, rfl, hd⟩ := h.exists_cons
      exact ⟨d, _, rfl, hd⟩

theorem IsMember.exists_cons (h : IsMember cs name j) : ∃ rest, cs = '\"' :: rest := by
  obtain ⟨⟨raw, rfl, -⟩, -, -⟩ := h
  exact ⟨_, rfl⟩

theorem IsMembers.exists_cons {ms : List (List Char × Json)} (h : IsMembers cs ms) :
    ∃ rest, cs = '\"' :: rest := by
  cases h with
  | one h => exact h.exists_cons
  | more h _ _ =>
      obtain ⟨rest, rfl⟩ := h.exists_cons
      exact ⟨_, rfl⟩

theorem StartsValue.ne_backslash (h : StartsValue c) : c ≠ '\\' := by
  rintro rfl
  exact absurd h (by decide)

theorem Token.ne_backslash (h : Token o cs) (ho : o ≠ '\\') :
    ∃ d rest, cs = d :: rest ∧ d ≠ '\\' := by
  obtain ⟨d, rest, rfl, rfl | hd⟩ := h.exists_cons
  · exact ⟨d, rest, rfl, ho⟩
  · refine ⟨d, rest, rfl, ?_⟩
    rintro rfl
    exact absurd hd (by decide)

/-- A value in brackets, a string, or a value that starts with some other character.  What
follows the first bracket does not start with a backslash, and the white space around that
bracket is of no concern. -/
theorem IsValue.inversion (h : IsValue cs j) :
    (∃ o b body, (o = '[' ∨ o = '{') ∧ Token o b ∧ cs = b ++ body ∧
      (∃ d tail, body = d :: tail ∧ d ≠ '\\') ∧ ∀ b', Token o b' → IsValue (b' ++ body) j) ∨
    (∃ s, j = .str s ∧ IsString cs s) ∨
    ∃ d tail, cs = d :: tail ∧ (d.isDigit ∨ d ∈ ['n', 't', 'f', '-']) := by
  cases h with
  | null => exact .inr (.inr ⟨'n', _, rfl, by decide⟩)
  | true => exact .inr (.inr ⟨'t', _, rfl, by decide⟩)
  | false => exact .inr (.inr ⟨'f', _, rfl, by decide⟩)
  | num h =>
      obtain ⟨d, tail, rfl, rfl | hd⟩ := h.exists_cons
      · exact .inr (.inr ⟨'-', tail, rfl, by decide⟩)
      · exact .inr (.inr ⟨d, tail, rfl, .inl hd⟩)
  | @str _ s h => exact .inr (.inl ⟨s, rfl, h⟩)
  | emptyArr hb he =>
      exact .inl ⟨'[', _, _, .inl rfl, hb, rfl, he.ne_backslash (by decide),
        fun b' hb' => .emptyArr hb' he⟩
  | emptyObj hb he =>
      exact .inl ⟨'{', _, _, .inr rfl, hb, rfl, he.ne_backslash (by decide),
        fun b' hb' => .emptyObj hb' he⟩
  | arr hb h he =>
      refine .inl ⟨'[', _, _, .inl rfl, hb, List.append_assoc _ _ _, ?_, fun b' hb' => ?_⟩
      · obtain ⟨d, tail, rfl, hd⟩ := h.exists_cons
        exact ⟨d, _, rfl, hd.ne_backslash⟩
      · rw [← List.append_assoc]
        exact .arr hb' h he
  | obj hb h he =>
      refine .inl ⟨'{', _, _, .inr rfl, hb, List.append_assoc _ _ _, ?_, fun b' hb' => ?_⟩
      · obtain ⟨tail, rfl⟩ := h.exists_cons
        exact ⟨'\"', _, rfl, by decide⟩
      · rw [← List.append_assoc]
        exact .obj hb' h he

theorem not_isWs_bracket (ho : o = '[' ∨ o = '{') : ¬ IsWs o := by
  rcases ho with rfl | rfl <;> decide

/-- **A backslash behind the first bracket** is in no value. -/
theorem not_isValue_bracket_backslash (ho : o = '[' ∨ o = '{') :
    ¬ IsValue (o :: '\\' :: rest) j := by
  intro h
  rcases h.inversion with ⟨o', b, body, -, hb, heq, ⟨d, tail, rfl, hd⟩, -⟩ | ⟨s, -, raw, heq, -⟩ |
    ⟨d, tail, heq, hd⟩
  · obtain ⟨x, w, rfl, -⟩ := hb.exists_cons
    obtain ⟨rfl, hbody⟩ := List.cons.inj heq
    rcases hb.of_cons with ⟨-, hw⟩ | ⟨hx, -⟩
    · cases w with
      | nil => exact hd (List.cons.inj hbody).1.symm
      | cons y w =>
          obtain ⟨rfl, -⟩ := List.cons.inj hbody
          exact absurd hw.of_cons.1 (by decide)
    · exact not_isWs_bracket ho hx
  · obtain ⟨rfl, -⟩ := List.cons.inj heq
    simp at ho
  · obtain ⟨rfl, -⟩ := List.cons.inj heq
    rcases ho with rfl | rfl <;> simp at hd

/-- A value that starts with a quote is a string. -/
theorem IsValue.of_quote (h : IsValue ('\"' :: rest) j) :
    ∃ s, j = .str s ∧ IsString ('\"' :: rest) s := by
  rcases h.inversion with ⟨o, b, body, ho, hb, heq, -, -⟩ | hstr | ⟨d, tail, heq, hd⟩
  · obtain ⟨x, w, rfl, hx⟩ := hb.exists_cons
    obtain ⟨rfl, -⟩ := List.cons.inj heq
    rcases hx with rfl | hx
    · simp at ho
    · exact absurd hx (by decide)
  · exact hstr
  · obtain ⟨rfl, -⟩ := List.cons.inj heq
    simp at hd

/-- White space in front of a value belongs to its first bracket. -/
theorem IsValue.of_ws (h : IsValue (c :: cs) j) (hc : IsWs c) : IsValue cs j := by
  rcases h.inversion with ⟨o, b, body, ho, hb, heq, -, hbody⟩ | ⟨s, -, raw, heq, -⟩ |
    ⟨d, tail, heq, hd⟩
  · obtain ⟨x, w, rfl, -⟩ := hb.exists_cons
    obtain ⟨rfl, rfl⟩ := List.cons.inj heq
    rcases hb.of_cons with ⟨rfl, -⟩ | ⟨-, hw⟩
    · exact absurd hc (not_isWs_bracket ho)
    · exact hbody w hw
  · obtain ⟨rfl, -⟩ := List.cons.inj heq
    exact absurd hc (by decide)
  · obtain ⟨rfl, -⟩ := List.cons.inj heq
    rcases hc with rfl | rfl | rfl | rfl <;> simp at hd

/-! ## Bodies of strings -/

variable {e raw s : List Char}

theorem IsBody.length_le (h : IsBody raw s) : s.length ≤ raw.length := by
  induction h with
  | nil => exact le_rfl
  | unescaped _ _ ih => simpa using ih
  | escaped _ _ ih =>
      simp only [List.length_cons, List.length_append]
      omega

/-- A text that needs no escape is its own body. -/
theorem isBody_self (h : ∀ c ∈ s, Unescaped c) : IsBody s s := by
  induction s with
  | nil => exact .nil
  | cons c s ih =>
      rw [List.forall_mem_cons] at h
      exact .unescaped h.1 (ih h.2)

theorem IsEscape.ne_nil (h : IsEscape e c) : e ≠ [] := by cases h <;> simp

/-- A body no longer than its text has no escapes. -/
theorem IsBody.unescaped_of_length_le (h : IsBody raw s) (hlen : raw.length ≤ s.length) :
    ∀ c ∈ s, Unescaped c := by
  induction h with
  | nil => simp
  | unescaped hc _ ih =>
      rw [List.forall_mem_cons]
      exact ⟨hc, ih (by simpa using hlen)⟩
  | escaped he h _ =>
      have hpos := List.length_pos_of_ne_nil he.ne_nil
      have hle := h.length_le
      simp only [List.length_cons, List.length_append] at hlen
      omega

theorem isBody_self_iff : IsBody s s ↔ ∀ c ∈ s, Unescaped c :=
  ⟨fun h => h.unescaped_of_length_le le_rfl, isBody_self⟩

theorem quote_notMem_of_codeUnit {ds : List Char} {n : ℕ} (h : codeUnit ds = some n) :
    '\"' ∉ ds := by
  have hquote : hexDigit '\"' = none := by decide
  intro hmem
  unfold codeUnit at h
  split at h
  case h_2 => cases h
  simp only [Option.bind_eq_bind, Option.bind_eq_some_iff] at h
  obtain ⟨a, ha, b, hb, c, hc, d, hd, -⟩ := h
  simp only [List.mem_cons, List.not_mem_nil, or_false] at hmem
  rcases hmem with rfl | rfl | rfl | rfl <;> simp_all

/-- The only escape with a quote in it is that of the quote. -/
theorem IsEscape.eq_of_quote_mem (h : IsEscape e c) (he : '\"' ∈ e) : e = ['\"'] ∧ c = '\"' := by
  cases h with
  | quote => exact ⟨rfl, rfl⟩
  | unicode h => simp [quote_notMem_of_codeUnit h] at he
  | surrogates h h' => simp [quote_notMem_of_codeUnit h, quote_notMem_of_codeUnit h'] at he
  | _ => simp at he

/-- A quote in a body stands behind a backslash, and what is in front of that is a body. -/
theorem IsBody.of_append_quote (h : IsBody raw s) {front : List Char}
    (heq : raw = front ++ '\"' :: rest) :
    ∃ front' s₁ s₂, front = front' ++ ['\\'] ∧ IsBody front' s₁ ∧ s = s₁ ++ '\"' :: s₂ := by
  induction h generalizing front with
  | nil => simp at heq
  | @unescaped c raw s hc _ ih =>
      cases front with
      | nil =>
          obtain ⟨rfl, -⟩ := List.cons.inj heq
          exact absurd hc (by decide)
      | cons d front =>
          obtain ⟨rfl, htail⟩ := List.cons.inj heq
          obtain ⟨front', s₁, s₂, rfl, hbody, rfl⟩ := ih htail
          exact ⟨c :: front', c :: s₁, s₂, rfl, .unescaped hc hbody, rfl⟩
  | @escaped e c raw s he _ ih =>
      cases front with
      | nil => simp at heq
      | cons d front =>
          obtain ⟨rfl, htail⟩ := List.cons.inj heq
          rcases List.append_eq_append_iff.mp htail with ⟨t, rfl, hraw⟩ | ⟨t, hfront, hquote⟩
          · -- The quote is behind the escape.
            obtain ⟨front', s₁, s₂, rfl, hbody, rfl⟩ := ih hraw
            exact ⟨'\\' :: (e ++ front'), c :: s₁, s₂, by simp, .escaped he hbody, rfl⟩
          · cases t with
            | nil =>
                obtain ⟨front', s₁, s₂, hnil, -⟩ := @ih [] hquote.symm
                simp at hnil
            | cons q t =>
                -- The quote is in the escape, which is then its own.
                obtain ⟨rfl, -⟩ := List.cons.inj hquote
                obtain ⟨hone, rfl⟩ := he.eq_of_quote_mem (by simp [hfront])
                have hnil : front = [] := by
                  have hlen := congrArg List.length (hfront.symm.trans hone)
                  simp only [List.length_append, List.length_cons, List.length_nil] at hlen
                  exact List.length_eq_zero_iff.mp (by omega)
                exact ⟨[], [], s, by rw [hnil]; rfl, .nil, rfl⟩

/-- What stands for a name between quotes does not go on behind a quote: every escape makes a
body longer than its text. -/
theorem not_isBody_append_quote (name rest : List Char) :
    ¬ IsBody (name ++ '\"' :: rest) name := by
  induction hlen : name.length using Nat.strong_induction_on generalizing name rest with
  | _ n ih =>
      intro h
      obtain ⟨front, s₁, s₂, rfl, hbody, hname⟩ := h.of_append_quote rfl
      -- The name ends in the backslash, so the quote it has is in `front`.
      rcases List.eq_nil_or_concat s₂ with rfl | ⟨t, x, rfl⟩
      · exact absurd (List.append_singleton_inj.mp hname).2 (by decide)
      · rw [List.concat_eq_append, ← List.cons_append, ← List.append_assoc,
          List.append_singleton_inj] at hname
        obtain ⟨rfl, -⟩ := hname
        refine ih s₁.length ?_ s₁ t rfl hbody
        rw [← hlen]
        simp only [List.length_append, List.length_cons]
        omega

/-- A text between quotes stands for itself if none of its characters has to be escaped. -/
theorem isString_quoted_iff :
    IsString ('\"' :: (s ++ ['\"'])) s ↔ ∀ c ∈ s, Unescaped c := by
  constructor
  · rintro ⟨raw, heq, h⟩
    obtain rfl := (List.append_singleton_inj.mp (List.cons.inj heq).2).1
    exact isBody_self_iff.mp h
  · exact fun h => ⟨s, rfl, isBody_self h⟩

/-! ## Members -/

/-- The value behind a colon and a space. -/
theorem isValue_of_colon {sep : List Char} (hsep : Token ':' sep) (h : IsValue cs j)
    (heq : sep ++ cs = ':' :: ' ' :: val) (hval : ∃ d tail, val = d :: tail ∧ ¬ IsWs d) :
    IsValue val j := by
  obtain ⟨x, w, rfl, -⟩ := hsep.exists_cons
  obtain ⟨rfl, hw⟩ := List.cons.inj heq
  rcases hsep.of_cons with ⟨-, hws⟩ | ⟨hx, -⟩
  case inr => exact absurd hx (by decide)
  cases w with
  | nil =>
      obtain rfl : cs = ' ' :: val := hw
      exact h.of_ws (by decide)
  | cons y w =>
      obtain ⟨rfl, hrest⟩ := List.cons.inj hw
      cases w with
      | nil =>
          obtain rfl : cs = val := hrest
          exact h
      | cons z w =>
          obtain ⟨d, tail, rfl, hd⟩ := hval
          obtain ⟨rfl, -⟩ := List.cons.inj hrest
          exact absurd hws.of_cons.2.of_cons.1 hd

/-- **A member with the name itself between its quotes** is one of that name exactly if no
character of the name has to be escaped. -/
theorem isMember_iff_of_name (hval : ∃ d tail, val = d :: tail ∧ ¬ IsWs d) :
    IsMember ('\"' :: (name ++ '\"' :: ':' :: ' ' :: val)) name j ↔
      (∀ c ∈ name, Unescaped c) ∧ IsValue val j := by
  constructor
  · intro h
    generalize htext : '\"' :: (name ++ '\"' :: ':' :: ' ' :: val) = text at h
    obtain ⟨⟨raw, rfl, hbody⟩, hsep, hcs⟩ := h
    rename_i sep cs
    have heq : name ++ '\"' :: ':' :: ' ' :: val = raw ++ '\"' :: (sep ++ cs) := by
      simpa using htext
    rcases List.append_eq_append_iff.mp heq with ⟨t, rfl, hquote⟩ | ⟨t, rfl, hquote⟩
    · cases t with
      | nil =>
          rw [List.append_nil] at hbody
          exact ⟨isBody_self_iff.mp hbody,
            isValue_of_colon hsep hcs (List.cons.inj hquote).2.symm hval⟩
      | cons q t =>
          obtain ⟨rfl, -⟩ := List.cons.inj hquote
          exact absurd hbody (not_isBody_append_quote name t)
    · -- The body is as long as the name at least.
      have hle := hbody.length_le
      rw [List.length_append] at hle
      obtain rfl : t = [] := List.length_eq_zero_iff.mp (by omega)
      rw [List.append_nil] at hbody
      exact ⟨by simpa using isBody_self_iff.mp hbody,
        isValue_of_colon hsep hcs (List.cons.inj hquote).2 hval⟩
  · rintro ⟨hname, h⟩
    have hsep : Token ':' [':', ' '] := ⟨[], [' '], by simp [Ws], by simp [Ws, IsWs], rfl⟩
    simpa using IsMember.mk (isString_quoted_iff.mpr hname) hsep h

/-! ## Integers -/

/-- The digits of a number do not start with a zero. -/
theorem head?_toDigits_ne (n : ℕ) (hn : 0 < n) : (Nat.toDigits 10 n).head? ≠ some '0' := by
  induction n using Nat.strong_induction_on with
  | _ n ih =>
      by_cases hlt : n < 10
      · have hdigit : ∀ m < 10, 0 < m → [m.digitChar].head? ≠ some '0' := by decide
        rw [Nat.toDigits_of_lt_base hlt]
        exact hdigit n hlt hn
      · rw [Nat.toDigits_of_base_le (by norm_num) (by omega),
          List.head?_append_of_ne_nil _ Nat.toDigits_ne_nil]
        exact ih (n / 10) (by omega) (by omega)

theorem isInt_toDigits (n : ℕ) : IsInt (Nat.toDigits 10 n) := by
  refine ⟨isDigits_toDigits n, fun h => ?_⟩
  rcases Nat.eq_zero_or_pos n with rfl | hn
  · rfl
  · exact absurd h (head?_toDigits_ne n hn)

/-- The numeral of a natural number is a number. -/
theorem isNumber_natToString (n : ℕ) : IsNumber (toString n).toList n := by
  rw [Nat.toString_eq_repr, Nat.toList_repr]
  simpa using IsNumber.unsigned (isInt_toDigits n) .none .none

/-- So is that of an integer. -/
theorem isNumber_intToString (x : ℤ) : IsNumber (toString x).toList x := by
  rw [Int.toString_eq_repr, Int.repr_eq_if]
  split
  case isTrue hx =>
    have hcast : ((x.toNat : ℕ) : ℚ) = x := by exact_mod_cast Int.toNat_of_nonneg hx
    rw [← hcast]
    exact isNumber_natToString x.toNat
  case isFalse hx =>
    have hcast : -(((-x).toNat : ℕ) : ℚ) = x := by
      have hneg := Int.toNat_of_nonneg (a := -x) (by omega)
      rw [← Int.cast_natCast, hneg, Int.cast_neg, neg_neg]
    rw [String.toList_append, Nat.toList_repr, ← hcast]
    simpa using IsNumber.minus (isInt_toDigits (-x).toNat) .none .none

end Json

/-! ## The bytes of a text -/

/-- The UTF-8 encoding of a text. -/
def utf8 (cs : List Char) : List UInt8 := cs.flatMap String.utf8EncodeChar

@[simp] theorem utf8_nil : utf8 [] = [] := rfl

@[simp] theorem utf8_cons (c : Char) (cs : List Char) :
    utf8 (c :: cs) = String.utf8EncodeChar c ++ utf8 cs := rfl

@[simp] theorem utf8_append (cs ds : List Char) : utf8 (cs ++ ds) = utf8 cs ++ utf8 ds :=
  List.flatMap_append

/-- The first character can be told from the bytes. -/
theorem utf8EncodeChar_append_inj {c d : Char} {x y : List UInt8}
    (h : String.utf8EncodeChar c ++ x = String.utf8EncodeChar d ++ y) : c = d ∧ x = y := by
  have hc := ByteArray.utf8DecodeChar?_utf8EncodeChar_append (b := x.toByteArray) (c := c)
  rw [← List.toByteArray_append, h, List.toByteArray_append,
    ByteArray.utf8DecodeChar?_utf8EncodeChar_append, Option.some.injEq] at hc
  subst hc
  exact ⟨rfl, List.append_cancel_left h⟩

/-- The characters at the front of a text can be told from its bytes. -/
theorem exists_of_utf8_eq_append {cs front : List Char} {rest : List UInt8}
    (h : utf8 cs = utf8 front ++ rest) : ∃ tail, cs = front ++ tail ∧ utf8 tail = rest := by
  induction front generalizing cs with
  | nil => exact ⟨cs, rfl, h⟩
  | cons d front ih =>
      cases cs with
      | nil =>
          rw [utf8_cons, List.append_assoc] at h
          exact absurd (List.append_eq_nil_iff.mp h.symm).1 String.utf8EncodeChar_ne_nil
      | cons c cs =>
          rw [utf8_cons, utf8_cons, List.append_assoc] at h
          obtain ⟨rfl, hcs⟩ := utf8EncodeChar_append_inj h
          obtain ⟨tail, rfl, htail⟩ := ih hcs
          exact ⟨tail, rfl, htail⟩

theorem utf8_eq_nil_iff {cs : List Char} : utf8 cs = [] ↔ cs = [] := by
  cases cs <;> simp [String.utf8EncodeChar_ne_nil]

theorem utf8_inj {cs ds : List Char} : utf8 cs = utf8 ds ↔ cs = ds := by
  refine ⟨fun h => ?_, fun h => h ▸ rfl⟩
  have happend : utf8 cs = utf8 ds ++ [] := by rw [h, List.append_nil]
  obtain ⟨tail, rfl, htail⟩ := exists_of_utf8_eq_append happend
  rw [utf8_eq_nil_iff.mp htail, List.append_nil]

end Opencode.Lib
