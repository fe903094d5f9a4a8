import SegsLauncher.Lib.KeyTree
import Mathlib.Algebra.Ring.Int.Defs
import Mathlib.Algebra.Ring.Nat
import Mathlib.Data.List.Lex
import Mathlib.Data.List.Sort
/-!
# The Qt values the launcher is written over

| here | there |
| --- | --- |
| `QVariant`            | `QVariant`, the four types the launcher puts in one |
| `Json`, `Document`    | `QJsonValue`; `QJsonDocument`, `none` being the null document |
| `Segment`             | a piece of a `QSettings` key between two `/` |
| `Store`               | the persisted keys one `QSettings` location holds |
| `QSettings`           | a `QSettings` object: its stack of groups. The store is passed beside it, because several objects on two threads address one store |
| `normalizedKey`       | what `beginGroup` and `actualKey` do to a name: leading, trailing and repeated `/` go |
| `QSettings.childGroups` | the distinct first segments below the current group, in `QString` order |
-/
namespace SegsLauncher

/-! ## Variants -/

inductive QVariant where
  | invalid
  | bool (b : Bool)
  | int (n : Int)
  | string (s : String)
deriving DecidableEq, Repr

def digitValue (c : Char) : Option Nat := if c.isDigit then some (c.toNat - '0'.toNat) else none

/-- A non-empty run of decimal digits. -/
def decimal (cs : List Char) : Option Nat :=
  if cs = [] then none else cs.foldlM (fun n c => (digitValue c).map (n * 10 + ·)) 0

/-- `QString::toInt`: outer white space is ignored; 0 when the rest is not a decimal number
of a 32-bit `int`. -/
def parseInt (s : String) : Int :=
  let cs := ((s.toList.dropWhile Char.isWhitespace).reverse.dropWhile Char.isWhitespace).reverse
  let n : Option Int := match cs with
    | '-' :: ds => (decimal ds).map fun n => -(n : Int)
    | '+' :: ds => (decimal ds).map fun n => (n : Int)
    | ds => (decimal ds).map fun n => (n : Int)
  match n with
  | some n => if -2 ^ 31 ≤ n ∧ n < 2 ^ 31 then n else 0
  | none => 0

namespace QVariant

def toString : QVariant → String
  | .invalid => ""
  | .bool b => if b then "true" else "false"
  | .int n => s!"{n}"
  | .string s => s

def toBool : QVariant → Bool
  | .invalid => false
  | .bool b => b
  | .int n => n ≠ 0
  | .string s =>
    let lower := s.toList.map Char.toLower
    !(lower == [] || lower == ['0'] || lower == ['f', 'a', 'l', 's', 'e'])

/-- The low 32 bits of a number, as a signed `int`. -/
def toInt : QVariant → Int
  | .invalid => 0
  | .bool b => if b then 1 else 0
  | .int n => (n + 2 ^ 31) % 2 ^ 32 - 2 ^ 31
  | .string s => parseInt s

@[simp] theorem toString_string (s : String) : (QVariant.string s).toString = s := rfl

end QVariant

/-- `QVariantMap`, as QML object literals fill it. -/
abbrev QVariantMap := List (String × QVariant)

/-- `map["key"]`. -/
def QVariantMap.get (m : QVariantMap) (key : String) : QVariant := (m.lookup key).getD .invalid

/-! ### Decimal texts -/

theorem decimal_of_digits {cs : List Char} (hne : cs ≠ []) (h : ∀ c ∈ cs, c.isDigit = true) :
    decimal cs = some (Nat.ofDigitChars 10 cs 0) := by
  rw [decimal, if_neg hne]
  generalize 0 = n
  induction cs generalizing n with
  | nil => exact absurd rfl hne
  | cons c cs ih =>
    have hc : (digitValue c).map (n * 10 + ·) = some (10 * n + (c.toNat - '0'.toNat)) := by
      simp [digitValue, h c List.mem_cons_self, Nat.mul_comm]
    rw [List.foldlM_cons, hc]
    cases cs with
    | nil => rfl
    | cons d ds => exact ih (List.cons_ne_nil d ds) (fun x hx => h x (List.mem_cons_of_mem c hx)) _

theorem isDigit_of_mem_toDigits {n : Nat} {c : Char} (hc : c ∈ Nat.toDigits 10 n) : c.isDigit = true :=
  Nat.isDigit_of_mem_toDigits (by omega) (by omega) hc

/-- A number is read back from its digits. -/
@[simp] theorem decimal_toDigits (n : Nat) : decimal (Nat.toDigits 10 n) = some n := by
  rw [decimal_of_digits Nat.toDigits_ne_nil fun _ hc => isDigit_of_mem_toDigits hc, Nat.ofDigitChars_ten_toDigits]

theorem not_isWhitespace_of_isDigit {c : Char} (h : c.isDigit = true) : c.isWhitespace = false := by
  simp only [Char.isDigit, Char.isWhitespace, Bool.and_eq_true, decide_eq_true_eq] at h ⊢
  have : ∀ d : Char, d.val < 48 → c ≠ d := by
    rintro d hd rfl
    exact absurd hd (UInt32.not_lt.2 h.1)
  simp [this ' ' (by decide), this '\t' (by decide), this '\r' (by decide), this '\n' (by decide)]

namespace QVariant

/-- `toInt` keeps a 32-bit number, and no other. -/
theorem toInt_int_eq_self_iff {n : Int} : (QVariant.int n).toInt = n ↔ -2 ^ 31 ≤ n ∧ n < 2 ^ 31 := by
  simp only [toInt]
  omega

theorem toList_toString_nat (n : Nat) : (QVariant.int n).toString.toList = Nat.toDigits 10 n := Nat.toList_repr

theorem toList_toString_negSucc (n : Nat) :
    (QVariant.int (.negSucc n)).toString.toList = '-' :: Nat.toDigits 10 (n + 1) := by
  change ("-" ++ (n + 1).repr).toList = _
  rw [String.toList_append, Nat.toList_repr]
  rfl

/-- Different numbers have different texts. -/
theorem toString_int_injective {m n : Int} (h : (QVariant.int m).toString = (QVariant.int n).toString) : m = n := by
  have hl := congrArg String.toList h
  have hminus : ∀ a b : Nat, Nat.toDigits 10 a ≠ '-' :: Nat.toDigits 10 b := by
    intro a b hab
    have hmem : '-' ∈ Nat.toDigits 10 a := hab ▸ List.mem_cons_self
    exact absurd (isDigit_of_mem_toDigits hmem) (by decide)
  have hdigits : ∀ a b : Nat, Nat.toDigits 10 a = Nat.toDigits 10 b → a = b := by
    intro a b hab
    have := congrArg decimal hab
    simpa using this
  cases m with
  | ofNat a =>
    cases n with
    | ofNat b => exact congrArg _ (hdigits a b ((toList_toString_nat a).symm.trans (hl.trans (toList_toString_nat b))))
    | negSucc b =>
      exact absurd ((toList_toString_nat a).symm.trans (hl.trans (toList_toString_negSucc b))) (hminus _ _)
  | negSucc a =>
    cases n with
    | ofNat b =>
      exact absurd ((toList_toString_nat b).symm.trans (hl.symm.trans (toList_toString_negSucc a))) (hminus _ _)
    | negSucc b =>
      have hab := (toList_toString_negSucc a).symm.trans (hl.trans (toList_toString_negSucc b))
      have := hdigits _ _ (List.cons.inj hab).2
      omega

end QVariant

/-- White space is trimmed at the ends only. -/
theorem trim_eq_self {cs : List Char} (h : ∀ c ∈ cs, c.isWhitespace = false) :
    ((cs.dropWhile Char.isWhitespace).reverse.dropWhile Char.isWhitespace).reverse = cs := by
  have hdrop : ∀ ds : List Char, (∀ c ∈ ds, c.isWhitespace = false) → ds.dropWhile Char.isWhitespace = ds := by
    intro ds hds
    cases ds with
    | nil => rfl
    | cons d ds => exact List.dropWhile_cons_of_neg (by simp [hds d List.mem_cons_self])
  rw [hdrop cs h, hdrop cs.reverse fun c hc => h c (List.mem_reverse.1 hc), List.reverse_reverse]

/-- `toInt` undoes `toString` on the 32-bit numbers. -/
theorem parseInt_toString {n : Int} (hn : -2 ^ 31 ≤ n ∧ n < 2 ^ 31) : parseInt (QVariant.int n).toString = n := by
  have hspace : ∀ m, ∀ c ∈ Nat.toDigits 10 m, c.isWhitespace = false := fun m c hc =>
    not_isWhitespace_of_isDigit (isDigit_of_mem_toDigits hc)
  cases n with
  | ofNat m =>
    have htext : (QVariant.int (.ofNat m)).toString.toList = Nat.toDigits 10 m := QVariant.toList_toString_nat m
    have hdec := decimal_toDigits m
    have htrim := trim_eq_self (hspace m)
    obtain ⟨c, cs, hcs⟩ := List.exists_cons_of_ne_nil (Nat.toDigits_ne_nil (n := m) (b := 10))
    have hc : c.isDigit = true := isDigit_of_mem_toDigits (n := m) (hcs ▸ List.mem_cons_self)
    -- the first character is a digit, so no sign is cut off
    have hminus : c ≠ '-' := by
      rintro rfl
      exact absurd hc (by decide)
    have hplus : c ≠ '+' := by
      rintro rfl
      exact absurd hc (by decide)
    rw [hcs] at htext hdec htrim
    simp only [parseInt, htext, htrim]
    have hlt : (m : Int) < 2 ^ 31 := hn.2
    simp [hminus, hplus, hdec]
    omega
  | negSucc m =>
    have hminus : ∀ c ∈ '-' :: Nat.toDigits 10 (m + 1), c.isWhitespace = false := by
      intro c hc
      rcases List.mem_cons.1 hc with rfl | hc
      · decide
      · exact hspace (m + 1) c hc
    simp only [parseInt, QVariant.toList_toString_negSucc, trim_eq_self hminus, decimal_toDigits]
    exact if_pos hn

/-! ## JSON -/

inductive Json where
  | undefined
  | null
  | bool (b : Bool)
  | double (mantissa : Int) (exponent : Nat)
  | string (s : String)
  | array (vs : List Json)
  | object (members : List (String × Json))

abbrev JsonObject := List (String × Json)

/-- `obj["key"]`. -/
def JsonObject.get (obj : JsonObject) (key : String) : Json := (obj.lookup key).getD .undefined

def JsonObject.contains (obj : JsonObject) (key : String) : Bool := (obj.lookup key).isSome

namespace Json

def toString : Json → String
  | .string s => s
  | _ => ""

def toArray : Json → List Json
  | .array vs => vs
  | _ => []

def toObject : Json → JsonObject
  | .object members => members
  | _ => []

def isArray : Json → Bool
  | .array _ => true
  | _ => false

/-- `value["key"]`: undefined unless the value is an object. -/
def get (v : Json) (key : String) : Json := JsonObject.get v.toObject key

end Json

/-- What `QJsonDocument::fromJson` returns; `none` is the null document. -/
abbrev Document := Option Json

def Document.object (doc : Document) : JsonObject := (doc.getD .undefined).toObject
def Document.array (doc : Document) : List Json := (doc.getD .undefined).toArray

abbrev QByteArray := List UInt8

/-! ## Settings -/

abbrev Segment := { s : String // s.toList ≠ [] ∧ '/' ∉ s.toList }

abbrev Store := KeyTree.Tree Segment QVariant

def normalizedKey (key : String) : List Segment :=
  (KeyTree.segments '/' key.toList).attach.map fun w =>
    ⟨String.ofList w.1, by rw [String.toList_ofList]; exact KeyTree.segments_clean w.2⟩

theorem normalizedKey_val (key : String) :
    (normalizedKey key).map Subtype.val = (KeyTree.segments '/' key.toList).map String.ofList := by
  rw [normalizedKey, List.map_map]
  change (KeyTree.segments '/' key.toList).attach.map (fun w => String.ofList w.1) = _
  exact List.attach_map_val

/-- A segment names itself. -/
@[simp] theorem normalizedKey_segment (g : Segment) : normalizedKey g.1 = [g] := by
  apply List.map_injective_iff.2 Subtype.val_injective
  rw [normalizedKey_val, KeyTree.segments_of_clean g.2]
  simp

/-- A key segment the source writes out. -/
abbrev seg (s : String) (h : decide (s.toList ≠ [] ∧ '/' ∉ s.toList) = true := by exact Eq.refl true) : Segment :=
  ⟨s, of_decide_eq_true h⟩

theorem normalizedKey_seg (s : String) (h : decide (s.toList ≠ [] ∧ '/' ∉ s.toList) = true) :
    normalizedKey s = [seg s h] := normalizedKey_segment (seg s h)

def utf16Char (c : Char) : List Nat :=
  if c.toNat < 0x10000 then [c.toNat]
  else [0xD800 + (c.toNat - 0x10000) / 0x400, 0xDC00 + (c.toNat - 0x10000) % 0x400]

/-- The UTF-16 code units `QString` compares. -/
def utf16 (s : String) : List Nat := s.toList.flatMap utf16Char

theorem toNat_not_surrogate (c : Char) : (c.toNat < 0xD800 ∨ 0xDFFF < c.toNat) ∧ c.toNat < 0x110000 := by
  rcases c.valid with h | h
  · have hlow : c.toNat < 0xD800 := h
    omega
  · exact ⟨.inr h.1, h.2⟩

/-- The code units of a character say where it ends. -/
theorem utf16Char_append {c d : Char} {l m : List Nat} (h : utf16Char c ++ l = utf16Char d ++ m) : c = d ∧ l = m := by
  have hc := toNat_not_surrogate c
  have hd := toNat_not_surrogate d
  simp only [utf16Char] at h
  split at h
  · split at h
    · simp only [List.cons_append, List.nil_append, List.cons.injEq] at h
      exact ⟨Char.toNat_inj.1 h.1, h.2⟩
    · -- one unit against a high surrogate
      simp only [List.cons_append, List.nil_append, List.cons.injEq] at h
      omega
  · split at h
    · simp only [List.cons_append, List.nil_append, List.cons.injEq] at h
      omega
    · simp only [List.cons_append, List.nil_append, List.cons.injEq] at h
      exact ⟨Char.toNat_inj.1 (by omega), h.2.2⟩

theorem utf16Char_ne_nil (c : Char) : utf16Char c ≠ [] := by
  unfold utf16Char
  split <;> simp

theorem flatMap_utf16Char_inj : ∀ {cs ds : List Char}, cs.flatMap utf16Char = ds.flatMap utf16Char → cs = ds
  | [], [], _ => rfl
  | [], d :: ds, h => by simp [utf16Char_ne_nil] at h
  | c :: cs, [], h => by simp [utf16Char_ne_nil] at h
  | c :: cs, d :: ds, h => by
    rw [List.flatMap_cons, List.flatMap_cons] at h
    obtain ⟨rfl, hrest⟩ := utf16Char_append h
    rw [flatMap_utf16Char_inj hrest]

theorem utf16_injective : Function.Injective utf16 := fun _ _ h =>
  String.toList_injective (flatMap_utf16Char_inj h)

structure QSettings where
  /-- Innermost group first. -/
  groupStack : List (List Segment)

namespace QSettings

/-- `QSettings settings;` -/
def new : QSettings := ⟨[]⟩

def beginGroup (q : QSettings) (name : String) : QSettings := ⟨normalizedKey name :: q.groupStack⟩

def endGroup (q : QSettings) : QSettings := ⟨q.groupStack.tail⟩

def groupPrefix (q : QSettings) : List Segment := q.groupStack.reverse.flatten

def actualKey (q : QSettings) (key : String) : List Segment := q.groupPrefix ++ normalizedKey key

def value (q : QSettings) (st : Store) (key : String) (defaultValue : QVariant) : QVariant :=
  (st.lookup (q.actualKey key)).getD defaultValue

def setValue (q : QSettings) (st : Store) (key : String) (v : QVariant) : Store :=
  st.insert (q.actualKey key) v

def childGroups (q : QSettings) (st : Store) : List String :=
  ((KeyTree.childGroups q.groupPrefix st).map Subtype.val).insertionSort fun a b => utf16 a ≤ utf16 b

@[simp] theorem groupPrefix_new : new.groupPrefix = [] := rfl

@[simp] theorem groupPrefix_beginGroup (q : QSettings) (name : String) :
    (q.beginGroup name).groupPrefix = q.groupPrefix ++ normalizedKey name := by
  simp [groupPrefix, beginGroup]

/-- `endGroup` undoes the last `beginGroup`, one that pushed nothing included. -/
@[simp] theorem endGroup_beginGroup (q : QSettings) (name : String) : (q.beginGroup name).endGroup = q := rfl

/-- A key read outside any group. -/
theorem value_root (st : Store) (key : String) (d : QVariant)
    (hk : decide (key.toList ≠ [] ∧ '/' ∉ key.toList) = true) :
    new.value st key d = (st.lookup [seg key hk]).getD d := by
  have hkey : new.actualKey key = [seg key hk] := by
    rw [actualKey, groupPrefix_new, normalizedKey_seg key hk, List.nil_append]
  rw [value, hkey]

/-- A key read in one group. -/
theorem value_group (st : Store) (group key : String) (d : QVariant)
    (hg : decide (group.toList ≠ [] ∧ '/' ∉ group.toList) = true)
    (hk : decide (key.toList ≠ [] ∧ '/' ∉ key.toList) = true) :
    (new.beginGroup group).value st key d = (st.lookup [seg group hg, seg key hk]).getD d := by
  have hkey : (new.beginGroup group).actualKey key = [seg group hg, seg key hk] := by
    rw [actualKey, groupPrefix_beginGroup, groupPrefix_new, normalizedKey_seg group hg, normalizedKey_seg key hk]
    rfl
  rw [value, hkey]

/-- The groups below the current one, as segments. -/
theorem childGroups_perm (q : QSettings) (st : Store) :
    (q.childGroups st).Perm ((KeyTree.childGroups q.groupPrefix st).map Subtype.val) :=
  List.perm_insertionSort _ _

theorem mem_childGroups {q : QSettings} {st : Store} {g : Segment} :
    g.1 ∈ q.childGroups st ↔ g ∈ KeyTree.childGroups q.groupPrefix st := by
  rw [(q.childGroups_perm st).mem_iff, List.mem_map_of_injective Subtype.val_injective]

theorem exists_segment_of_mem_childGroups {q : QSettings} {st : Store} {name : String}
    (h : name ∈ q.childGroups st) : ∃ g : Segment, g.1 = name ∧ g ∈ KeyTree.childGroups q.groupPrefix st := by
  obtain ⟨g, hg, rfl⟩ := List.mem_map.1 ((q.childGroups_perm st).mem_iff.1 h)
  exact ⟨g, rfl, hg⟩

theorem nodup_childGroups (q : QSettings) (st : Store) : (q.childGroups st).Nodup :=
  (q.childGroups_perm st).nodup_iff.2
    ((KeyTree.nodup_childGroups _ _).map Subtype.val_injective)

end QSettings

end SegsLauncher
