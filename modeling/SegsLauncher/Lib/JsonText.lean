import SegsLauncher.Lib.Blocks
/-!
# JSON texts as bytes

The grammar of RFC 8259 over the bytes of a text. It is followed as written, with one liberty: the
bytes of a string are not asked to be well-formed UTF-8.

| here | there |
| --- | --- |
| `Blank`             | `ws` |
| `Number`            | `number` |
| `Chars`             | `*char`, between the quotation marks of a `string` |
| `Derives .value`    | `value` |
| `Derives .element`  | a `value` with the `ws` that the structural characters around it allow |
| `Derives .members`  | `member *( value-separator member )` |
| `IsObject`          | an `object` without the `ws` around it |

A text that is an object is one block between its braces (`IsObject.block`).
-/
namespace JsonText

open Framing Framing.Delimiters

/-! ## The grammar -/

def Blank (w : List UInt8) : Prop := ∀ a ∈ w, a ∈ [0x20, 0x09, 0x0A, 0x0D]

def IsDigit (a : UInt8) : Prop := 0x30 ≤ a ∧ a ≤ 0x39

def IsHex (a : UInt8) : Prop := IsDigit a ∨ 0x41 ≤ a ∧ a ≤ 0x46 ∨ 0x61 ≤ a ∧ a ≤ 0x66

def Digits (w : List UInt8) : Prop := w ≠ [] ∧ ∀ a ∈ w, IsDigit a

def Number (w : List UInt8) : Prop :=
  ∃ sign int frac exp, w = sign ++ int ++ frac ++ exp ∧ sign ∈ [[], [0x2D]] ∧
    (Digits int ∧ (int.head? = some 0x30 → int = [0x30])) ∧
    (frac = [] ∨ ∃ ds, Digits ds ∧ frac = 0x2E :: ds) ∧
    (exp = [] ∨ ∃ e s ds, e ∈ [0x45, 0x65] ∧ s ∈ [[], [0x2B], [0x2D]] ∧ Digits ds ∧ exp = e :: s ++ ds)

/-- Quotation mark, reverse solidus, solidus, `b`, `f`, `n`, `r`, `t`. -/
def escapable : List UInt8 := [0x22, 0x5C, 0x2F, 0x62, 0x66, 0x6E, 0x72, 0x74]

inductive Chars : List UInt8 → Prop
  | nil : Chars []
  | unescaped {a : UInt8} {w : List UInt8} (ha : 0x20 ≤ a) (hq : a ≠ 0x22) (he : a ≠ 0x5C) (h : Chars w) : Chars (a :: w)
  | escaped {a : UInt8} {w : List UInt8} (ha : a ∈ escapable) (h : Chars w) : Chars (0x5C :: a :: w)
  | unicode {a b c d : UInt8} {w : List UInt8} (ha : IsHex a) (hb : IsHex b) (hc : IsHex c) (hd : IsHex d)
      (h : Chars w) : Chars (0x5C :: 0x75 :: a :: b :: c :: d :: w)

/-- `false`, `null`, `true`. -/
def literals : List (List UInt8) :=
  [[0x66, 0x61, 0x6C, 0x73, 0x65], [0x6E, 0x75, 0x6C, 0x6C], [0x74, 0x72, 0x75, 0x65]]

inductive Symbol where
  | value
  | element
  | elements
  | member
  | members

inductive Derives : Symbol → List UInt8 → Prop
  | literal {w : List UInt8} (h : w ∈ literals) : Derives .value w
  | number {w : List UInt8} (h : Number w) : Derives .value w
  | string {w : List UInt8} (h : Chars w) : Derives .value (0x22 :: w ++ [0x22])
  | emptyObject {s : List UInt8} (hs : Blank s) : Derives .value (0x7B :: s ++ [0x7D])
  | object {w : List UInt8} (h : Derives .members w) : Derives .value (0x7B :: w ++ [0x7D])
  | emptyArray {s : List UInt8} (hs : Blank s) : Derives .value (0x5B :: s ++ [0x5D])
  | array {w : List UInt8} (h : Derives .elements w) : Derives .value (0x5B :: w ++ [0x5D])
  | element {s w t : List UInt8} (hs : Blank s) (h : Derives .value w) (ht : Blank t) : Derives .element (s ++ w ++ t)
  | lastElement {w : List UInt8} (h : Derives .element w) : Derives .elements w
  | nextElement {u w : List UInt8} (h : Derives .element u) (h' : Derives .elements w) :
      Derives .elements (u ++ 0x2C :: w)
  | member {s k t w : List UInt8} (hs : Blank s) (hk : Chars k) (ht : Blank t) (h : Derives .element w) :
      Derives .member (s ++ (0x22 :: k ++ [0x22]) ++ t ++ 0x3A :: w)
  | lastMember {w : List UInt8} (h : Derives .member w) : Derives .members w
  | nextMember {u w : List UInt8} (h : Derives .member u) (h' : Derives .members w) :
      Derives .members (u ++ 0x2C :: w)

def IsObject (w : List UInt8) : Prop := ∃ m, w = 0x7B :: m ++ [0x7D] ∧ (Blank m ∨ Derives .members m)

/-! ## Braces -/

/-- `isspace` in the C locale. -/
def isspace (a : UInt8) : Bool := 0x09 ≤ a ∧ a ≤ 0x0D ∨ a = 0x20

def braces : Delimiters UInt8 where
  opening := 0x7B
  closing := 0x7D
  quote := 0x22
  escape := 0x5C
  isSpace := isspace
  nodup := by decide
  visible := by
    intro a ha
    simp only [List.mem_cons, List.not_mem_nil, or_false] at ha
    rcases ha with rfl | rfl | rfl | rfl <;> rfl

/-- A byte that is no brace and no quotation mark. -/
theorem neutral_of_forall {w : List UInt8} (h : ∀ a ∈ w, a ≠ 0x7B ∧ a ≠ 0x7D ∧ a ≠ 0x22) : braces.Neutral w := by
  apply Neutral.of_forall
  intro a ha
  simpa [braces] using h a ha

theorem neutral_of_all {w : List UInt8} (h : w.all (fun a => a ≠ 0x7B ∧ a ≠ 0x7D ∧ a ≠ 0x22) = true) :
    braces.Neutral w := neutral_of_forall fun a ha => by simpa using List.all_eq_true.1 h a ha

theorem neutral_of_blank {w : List UInt8} (h : Blank w) : braces.Neutral w := by
  apply neutral_of_forall
  intro a ha
  have := h a ha
  simp only [List.mem_cons, List.not_mem_nil, or_false] at this
  rcases this with rfl | rfl | rfl | rfl <;> decide

theorem ne_of_isDigit {a : UInt8} (h : IsDigit a) : a ≠ 0x7B ∧ a ≠ 0x7D ∧ a ≠ 0x22 := by
  obtain ⟨h₁, h₂⟩ := h
  refine ⟨?_, ?_, ?_⟩
  · rintro rfl
    exact absurd h₂ (by decide)
  · rintro rfl
    exact absurd h₂ (by decide)
  · rintro rfl
    exact absurd h₁ (by decide)

theorem neutral_of_digits {w : List UInt8} (h : Digits w) : braces.Neutral w :=
  neutral_of_forall fun a ha => ne_of_isDigit (h.2 a ha)

theorem neutral_of_number {w : List UInt8} (h : Number w) : braces.Neutral w := by
  obtain ⟨sign, int, frac, exp, rfl, hsign, ⟨hint, -⟩, hfrac, hexp⟩ := h
  refine ((Neutral.append ?_ (neutral_of_digits hint)).append ?_).append ?_
  · simp only [List.mem_cons, List.not_mem_nil, or_false] at hsign
    rcases hsign with rfl | rfl
    · exact .nil
    · exact neutral_of_all (by decide)
  · rcases hfrac with rfl | ⟨ds, hds, rfl⟩
    · exact .nil
    · exact (neutral_of_all (w := [0x2E]) (by decide)).append (neutral_of_digits hds)
  · rcases hexp with rfl | ⟨e, s, ds, he, hs, hds, rfl⟩
    · exact .nil
    · have hes : braces.Neutral (e :: s) := by
        simp only [List.mem_cons, List.not_mem_nil, or_false] at he hs
        rcases he with rfl | rfl <;> rcases hs with rfl | rfl | rfl <;> exact neutral_of_all (by decide)
      exact hes.append (neutral_of_digits hds)

theorem ne_of_isHex {a : UInt8} (h : IsHex a) : a ≠ 0x22 ∧ a ≠ 0x5C := by
  simp only [IsHex, IsDigit, UInt8.le_iff_toNat_le] at h
  simp only [ne_eq, ← UInt8.toNat_inj]
  simp only [UInt8.reduceToNat] at h ⊢
  omega

theorem chars_of_forall {w : List UInt8} (h : ∀ a ∈ w, 0x20 ≤ a ∧ a ≠ 0x22 ∧ a ≠ 0x5C) : Chars w := by
  induction w with
  | nil => exact .nil
  | cons a w ih =>
    obtain ⟨ha, hq, he⟩ := h a List.mem_cons_self
    exact .unescaped ha hq he (ih fun b hb => h b (List.mem_cons_of_mem a hb))

/-- Between its quotation marks a string hides its braces. -/
theorem literal_of_chars {w : List UInt8} (h : Chars w) : braces.Literal w := by
  have hhex : ∀ a, IsHex a → braces.Literal [a] := fun a ha => .single (ne_of_isHex ha).1 (ne_of_isHex ha).2
  induction h with
  | nil => exact .nil
  | @unescaped a w ha hq he h ih => exact (Literal.single (d := braces) hq he).append ih
  | @escaped a w ha h ih =>
    have hs : isspace a = false := by
      simp only [escapable, List.mem_cons, List.not_mem_nil, or_false] at ha
      rcases ha with rfl | rfl | rfl | rfl | rfl | rfl | rfl | rfl <;> rfl
    exact (Literal.escaped (d := braces) hs).append ih
  | @unicode a b c e w ha hb hc hd h ih =>
    have hu : braces.Literal [0x5C, 0x75] := Literal.escaped (d := braces) (by decide)
    exact hu.append ((hhex a ha).append ((hhex b hb).append ((hhex c hc).append ((hhex e hd).append ih))))

/-- **Whatever the grammar derives leaves a scan for braces where it was.** -/
theorem Derives.neutral {x : Symbol} {w : List UInt8} (h : Derives x w) : braces.Neutral w := by
  have hstring : ∀ {k : List UInt8}, Chars k → braces.Neutral (0x22 :: k ++ [0x22]) := fun hk =>
    Neutral.quoted (literal_of_chars hk)
  have hbyte : ∀ a : UInt8, a ≠ 0x7B ∧ a ≠ 0x7D ∧ a ≠ 0x22 → braces.Neutral [a] := fun a ha =>
    neutral_of_forall (by simpa using ha)
  have hcomma := hbyte 0x2C (by decide)
  induction h with
  | literal h =>
    simp only [literals, List.mem_cons, List.not_mem_nil, or_false] at h
    rcases h with rfl | rfl | rfl <;> exact neutral_of_all (by decide)
  | number h => exact neutral_of_number h
  | string h => exact hstring h
  | emptyObject hs => exact Neutral.nested (neutral_of_blank hs)
  | object _ ih => exact Neutral.nested ih
  | emptyArray hs => exact (hbyte 0x5B (by decide)).append ((neutral_of_blank hs).append (hbyte 0x5D (by decide)))
  | array _ ih => exact (hbyte 0x5B (by decide)).append (ih.append (hbyte 0x5D (by decide)))
  | element hs _ ht ih => exact ((neutral_of_blank hs).append ih).append (neutral_of_blank ht)
  | lastElement _ ih => exact ih
  | nextElement _ _ ih ih' => exact ih.append (hcomma.append ih')
  | member hs hk ht _ ih =>
    exact (((neutral_of_blank hs).append (hstring hk)).append (neutral_of_blank ht)).append
      ((hbyte 0x3A (by decide)).append ih)
  | lastMember _ ih => exact ih
  | nextMember _ _ ih ih' => exact ih.append (hcomma.append ih')

/-- **An object's text is one block.** -/
theorem IsObject.block {w : List UInt8} (h : IsObject w) : braces.Block w := by
  obtain ⟨m, rfl, hm | hm⟩ := h
  · exact Neutral.block (neutral_of_blank hm)
  · exact Neutral.block hm.neutral

end JsonText
