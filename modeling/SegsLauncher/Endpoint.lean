import SegsLauncher.Qt
import SegsLauncher.Lib.Framing
import SegsLauncher.Lib.JsonText
/-!
# The RPC endpoint (json_rpc_endpoint.cpp)

Client and server exchange JSON objects over a socket that delivers bytes in packets of its own
choosing. `dataReady` appends each packet to `m_recv_buffer`, trims it, and has `processBuffer` cut off
the whole objects by counting braces outside strings.

| here | there |
| --- | --- |
| `Scan`                       | the local variables of the loop of `processBuffer` (`json_rpc_endpoint.cpp:140-177`) |
| `turn`                       | one turn of the loop |
| `processBuffer`              | `:131`, with the slices it hands to `QJsonDocument::fromJson` |
| `JsonRpcEndpoint.dataReady`  | `:121`; asserts are off, as in a release build |
| `JsonRpcEndpoint.emitted`    | the arguments of `jsonObjectReceived` so far |
| `isspace`                    | what `QByteArray::trimmed` takes for white space |
| `Codec`                      | **Qt boundary**: what the endpoints rely on of `QJsonDocument::toJson` and `fromJson` |

The trimming takes white space from the middle of the stream. Where that is in a string, the object is
read with a changed string and no error (`slices_iff_clean`).
-/
namespace SegsLauncher

open Framing.Delimiters JsonText

/-- `buf.mid(pos, len)`. -/
def mid (buf : QByteArray) (pos len : Nat) : QByteArray := (buf.drop pos).take len

structure Scan where
  inString : Bool := false
  inEsc : Bool := false
  braceNestingLevel : Int := 0
  start : Nat := 0
  i : Nat := 0
  slices : List QByteArray := []

def turn (buf : QByteArray) (s : Scan) (currCh : UInt8) : Scan :=
  let s := { s with i := s.i + 1 }
  if currCh = '"'.toUInt8 && !s.inEsc then { s with inString := !s.inString }
  else if !s.inString then
    if currCh = '{'.toUInt8 then { s with braceNestingLevel := s.braceNestingLevel + 1 }
    else if currCh = '}'.toUInt8 then
      let s := { s with braceNestingLevel := s.braceNestingLevel - 1 }
      if s.braceNestingLevel = 0 then
        { s with slices := s.slices ++ [mid buf s.start (s.i - s.start)], start := s.i }
      else s
    else s
  else if currCh = '\\'.toUInt8 && !s.inEsc then { s with inEsc := true }
  else { s with inEsc := false }

/-- The slices, and what stays in the buffer. -/
def processBuffer (buf : QByteArray) : List QByteArray × QByteArray :=
  if buf.head? ≠ some '{'.toUInt8 then ([], [])
  else
    let s := buf.foldl (turn buf) {}
    (s.slices, if s.start > 0 then buf.drop s.start else buf)

structure JsonRpcEndpoint where
  recvBuffer : QByteArray := []
  /-- The slices handed to `fromJson` so far. -/
  slices : List QByteArray := []

namespace JsonRpcEndpoint

def dataReady (e : JsonRpcEndpoint) (bytes : QByteArray) : JsonRpcEndpoint :=
  let (slices, rest) := processBuffer (braces.trim (e.recvBuffer ++ bytes))
  ⟨rest, e.slices ++ slices⟩

/-- A new endpoint once it has read the packets. -/
def read (packets : List QByteArray) : JsonRpcEndpoint := packets.foldl dataReady {}

end JsonRpcEndpoint

/-- The objects among the documents that the slices are read as. -/
def objects (fromJson : QByteArray → Document) (slices : List QByteArray) : List JsonObject :=
  slices.filterMap fun slice => match fromJson slice with
    | some (.object members) => some members
    | _ => none

namespace JsonRpcEndpoint

def emitted (fromJson : QByteArray → Document) (e : JsonRpcEndpoint) : List JsonObject := objects fromJson e.slices

/-- The objects one `dataReady` emits `jsonObjectReceived` for. -/
def signalled (fromJson : QByteArray → Document) (e : JsonRpcEndpoint) (bytes : QByteArray) : List JsonObject :=
  objects fromJson (processBuffer (braces.trim (e.recvBuffer ++ bytes))).1

theorem emitted_dataReady (fromJson : QByteArray → Document) (e : JsonRpcEndpoint) (bytes : QByteArray) :
    (e.dataReady bytes).emitted fromJson = e.emitted fromJson ++ e.signalled fromJson bytes :=
  List.filterMap_append

end JsonRpcEndpoint

/-! ## The loop is the scan -/

/-- Where the loop stands, as the scan has it. -/
def Scan.state (s : Scan) : Framing.State := ⟨s.braceNestingLevel, if s.inString then some s.inEsc else none⟩

/-- What one turn of the loop does. -/
theorem turn_spec (buf : QByteArray) (s : Scan) (a : UInt8) (hesc : s.inString = false → s.inEsc = false) :
    (turn buf s a).i = s.i + 1 ∧
    (turn buf s a).state = braces.next s.state a ∧
    ((turn buf s a).inString = false → (turn buf s a).inEsc = false) ∧
    if braces.closes s.state a = true then
      (turn buf s a).slices = s.slices ++ [mid buf s.start (s.i + 1 - s.start)] ∧ (turn buf s a).start = s.i + 1
    else (turn buf s a).slices = s.slices ∧ (turn buf s a).start = s.start := by
  have hquote : braces.quote = '"'.toUInt8 := rfl
  have hopening : braces.opening = '{'.toUInt8 := rfl
  have hclosing : braces.closing = '}'.toUInt8 := rfl
  have hescape : braces.escape = '\\'.toUInt8 := rfl
  obtain ⟨inString, inEsc, level, start, i, slices⟩ := s
  cases inString with
  | false =>
    obtain rfl : inEsc = false := hesc rfl
    by_cases hq : a = '"'.toUInt8
    · subst hq
      refine ⟨rfl, rfl, fun _ => rfl, ?_⟩
      have hne : ¬ '"'.toUInt8 = '}'.toUInt8 := by decide
      simp [turn, closes, hclosing, hne]
    · by_cases ho : a = '{'.toUInt8
      · subst ho
        refine ⟨rfl, rfl, fun _ => rfl, ?_⟩
        have hne : ¬ '{'.toUInt8 = '}'.toUInt8 := by decide
        simp [turn, closes, hclosing, hne, hq]
      · by_cases hc : a = '}'.toUInt8
        · subst hc
          by_cases hlevel : level = 1
          · subst hlevel
            exact ⟨rfl, rfl, fun _ => rfl, rfl, rfl⟩
          · have hne : ¬ level - 1 = 0 := by omega
            simp [turn, Scan.state, closes, next, hquote, hopening, hclosing, hlevel, hne, hq, ho]
        · simp [turn, Scan.state, closes, next, hquote, hopening, hclosing, hq, ho, hc]
  | true =>
    cases inEsc with
    | false =>
      by_cases hq : a = '"'.toUInt8
      · simp [turn, Scan.state, closes, next, hquote, hq]
      · by_cases he : a = '\\'.toUInt8
        · subst he
          simp [turn, Scan.state, closes, next, hquote, hescape, hq]
        · simp [turn, Scan.state, closes, next, hquote, hescape, hq, he]
    | true => simp [turn, Scan.state, closes, next]

/-- The loop's variables after the first symbols `u` of the buffer. -/
structure Tracks (u : QByteArray) (s : Scan) : Prop where
  i : s.i = u.length
  start : s.start + (braces.scan u).piece.length = u.length
  slices : s.slices = (braces.scan u).blocks
  state : s.state = braces.run {} (braces.scan u).piece
  esc : s.inString = false → s.inEsc = false

theorem tracks_nil : Tracks [] {} := ⟨rfl, rfl, rfl, rfl, fun _ => rfl⟩

/-- What the loop has not sliced off yet is the piece of the scan. -/
theorem drop_start {u v : QByteArray} {start : Nat} (h : start + (braces.scan u).piece.length = u.length) :
    (u ++ v).drop start = (braces.scan u).piece ++ v := by
  have hflat := braces.flatten_scan u
  have hlen : (braces.scan u).blocks.flatten.length + (braces.scan u).piece.length = u.length := by
    rw [← List.length_append, hflat]
  have hstart : start = (braces.scan u).blocks.flatten.length := by omega
  conv_lhs => rw [← hflat]
  rw [List.append_assoc, hstart, List.drop_left]

/-- One turn of the loop is one symbol of the scan. -/
theorem Tracks.turn {u v : QByteArray} {a : UInt8} {s : Scan} (h : Tracks u s) :
    Tracks (u ++ [a]) (turn (u ++ a :: v) s a) := by
  obtain ⟨hi, hstate, hesc, hslices⟩ := turn_spec (u ++ a :: v) s a h.esc
  have hsnoc : braces.scan (u ++ [a]) = braces.feed (braces.scan u) a := scan_append u [a]
  have hstart := h.start
  rw [h.state] at hstate hslices
  by_cases hc : braces.closes (braces.run {} (braces.scan u).piece) a = true
  · rw [if_pos hc] at hslices
    have hmid : mid (u ++ a :: v) s.start (s.i + 1 - s.start) = (braces.scan u).piece ++ [a] := by
      have hlen : s.i + 1 - s.start = ((braces.scan u).piece ++ [a]).length := by
        rw [List.length_append, List.length_singleton, h.i]
        omega
      have hcons : (braces.scan u).piece ++ a :: v = (braces.scan u).piece ++ [a] ++ v := by simp
      rw [mid, drop_start h.start, hlen, hcons, List.take_left]
    refine ⟨?_, ?_, ?_, ?_, hesc⟩
    · rw [hi, h.i, List.length_append, List.length_singleton]
    · simp [hsnoc, feed, hc, hslices.2, h.i]
    · rw [hslices.1, hmid, h.slices, hsnoc]
      simp [feed, hc]
    · rw [hstate, hsnoc, next_of_closes hc]
      simp only [feed, hc, if_true]
      rfl
  · rw [if_neg hc] at hslices
    refine ⟨?_, ?_, ?_, ?_, hesc⟩
    · rw [hi, h.i, List.length_append, List.length_singleton]
    · simp only [hsnoc, feed, hc, if_false, Bool.false_eq_true, hslices.2, List.length_append, List.length_singleton]
      omega
    · simp [hsnoc, feed, hc, hslices.1, h.slices]
    · rw [hstate, hsnoc]
      simp only [feed, hc, if_false, Bool.false_eq_true]
      exact (run_snoc _ _ a).symm

theorem tracks_foldl (buf : QByteArray) : Tracks buf (buf.foldl (turn buf) {}) := by
  have h : ∀ u v : QByteArray, Tracks u (u.foldl (turn (u ++ v)) {}) := by
    intro u
    induction u using List.reverseRecOn with
    | nil => exact fun _ => tracks_nil
    | append_singleton u a ih =>
      intro v
      rw [List.foldl_append, List.append_assoc]
      exact (ih (a :: v)).turn
  simpa using h buf []

theorem processBuffer_eq (buf : QByteArray) :
    processBuffer buf = if buf.head? = some braces.opening then ((braces.scan buf).blocks, (braces.scan buf).piece)
      else ([], []) := by
  have hopening : braces.opening = '{'.toUInt8 := rfl
  rw [processBuffer, hopening]
  by_cases hhead : buf.head? = some '{'.toUInt8
  · rw [if_neg (by simp [hhead]), if_pos hhead]
    obtain ⟨-, hstart, hslices, -, -⟩ := tracks_foldl buf
    have hdrop := drop_start (v := []) hstart
    rw [List.append_nil, List.append_nil] at hdrop
    simp only [hslices]
    split
    · rw [hdrop]
    · rename_i hzero
      have : (buf.foldl (turn buf) {}).start = 0 := by omega
      rw [this, List.drop_zero] at hdrop
      rw [← hdrop]
  · rw [if_pos hhead, if_neg hhead]

/-- The endpoint as a receiver of blocks. -/
def JsonRpcEndpoint.scanner (e : JsonRpcEndpoint) : Framing.Scanner UInt8 := ⟨e.recvBuffer, e.slices⟩

/-- **`dataReady` is the receiver between braces.** -/
theorem dataReady_scanner (e : JsonRpcEndpoint) (bytes : QByteArray) :
    (e.dataReady bytes).scanner = braces.receiveNext e.scanner bytes := by
  simp only [JsonRpcEndpoint.dataReady, JsonRpcEndpoint.scanner, processBuffer_eq, receiveNext, receive]
  by_cases hhead : (braces.trim (e.recvBuffer ++ bytes)).head? = some braces.opening
  · simp [hhead]
  · simp [hhead]

theorem read_scanner (packets : List QByteArray) :
    (JsonRpcEndpoint.read packets).scanner = braces.receiveAll packets := by
  induction packets using List.reverseRecOn with
  | nil => rfl
  | append_singleton packets p ih =>
    have hread : JsonRpcEndpoint.read (packets ++ [p]) = (JsonRpcEndpoint.read packets).dataReady p := List.foldl_append
    have hall : braces.receiveAll (packets ++ [p]) = braces.receiveNext (braces.receiveAll packets) p := List.foldl_append
    rw [hread, hall, dataReady_scanner, ih]

/-! ## What the endpoint makes of a stream of objects -/

theorem JsonStream.blocks {texts : List QByteArray} {w : QByteArray} (h : braces.Stream IsObject texts w) :
    braces.Stream braces.Block texts w := h.mono fun _ hf => hf.block

/-- **The slices are the texts that were sent, white space outside strings apart, exactly when no packet
ends in white space inside a string; in every case there is one slice for each text, and nothing is left
in the buffer.** -/
theorem slices_iff_clean {texts packets : List QByteArray} (h : braces.Stream IsObject texts packets.flatten)
    (hne : ∀ p ∈ packets, p ≠ []) :
    (JsonRpcEndpoint.read packets).recvBuffer = [] ∧
    (JsonRpcEndpoint.read packets).slices.length = texts.length ∧
    (List.Forall₂ braces.Respaced texts (JsonRpcEndpoint.read packets).slices ↔
      ∀ q, q <+: packets → braces.Clean q.flatten) := by
  have hs := JsonStream.blocks h
  have hread := read_scanner packets
  have hpiece := congrArg Framing.Scanner.piece hread
  have hblocks := congrArg Framing.Scanner.blocks hread
  simp only [JsonRpcEndpoint.scanner] at hpiece hblocks
  rw [hpiece, hblocks]
  exact ⟨receiveAll_piece hs hne, (thinned_receiveAll hs hne).length_eq.symm, respaced_iff_clean hs hne⟩

/-- `{"a":"b c"}` -/
def spaced : QByteArray := [0x7B, 0x22, 0x61, 0x22, 0x3A, 0x22, 0x62, 0x20, 0x63, 0x22, 0x7D]

theorem isObject_spaced : IsObject spaced := by
  have hkey : Chars [0x61] := .unescaped (by decide) (by decide) (by decide) .nil
  have hchars : Chars [0x62, 0x20, 0x63] :=
    .unescaped (by decide) (by decide) (by decide) (.unescaped (by decide) (by decide) (by decide)
      (.unescaped (by decide) (by decide) (by decide) .nil))
  have hblank : Blank [] := by simp [Blank]
  have hvalue : Derives .element [0x22, 0x62, 0x20, 0x63, 0x22] := .element hblank (.string hchars) hblank
  exact ⟨_, rfl, .inr (.lastMember (.member hblank hkey hblank hvalue))⟩

theorem stream_spaced : braces.Stream IsObject [spaced] spaced :=
  .block (s := []) (by simp) isObject_spaced (.blank (w := []) (by simp))

/-- A packet that ends behind the blank of the string: one slice, and not the text. -/
theorem slices_cut_in_string :
    (JsonRpcEndpoint.read [spaced.take 8, spaced.drop 8]).slices.length = 1 ∧
      ¬ List.Forall₂ braces.Respaced [spaced] (JsonRpcEndpoint.read [spaced.take 8, spaced.drop 8]).slices := by
  obtain ⟨-, hlen, hiff⟩ :=
    @slices_iff_clean [spaced] [spaced.take 8, spaced.drop 8] stream_spaced (by decide)
  refine ⟨hlen, ?_⟩
  intro h
  have hclean := hiff.1 h [spaced.take 8] ⟨[spaced.drop 8], rfl⟩
  have hopen : (braces.run {} [spaced.take 8].flatten).string ≠ none := by decide +kernel
  exact absurd (hclean hopen 0x20 rfl) (by decide)

/-- **The texts come through however the stream is cut, exactly when no string in them has white space.** -/
theorem forall_packets_iff_bare {texts : List QByteArray} {w : QByteArray} (h : braces.Stream IsObject texts w) :
    (∀ packets : List QByteArray, (∀ p ∈ packets, p ≠ []) → packets.flatten = w →
      List.Forall₂ braces.Respaced texts (JsonRpcEndpoint.read packets).slices) ↔ braces.bareFrom {} w = true := by
  rw [← forall_respaced_iff_bare (JsonStream.blocks h)]
  have hslices : ∀ packets, (JsonRpcEndpoint.read packets).slices = (braces.receiveAll packets).blocks := fun packets =>
    congrArg Framing.Scanner.blocks (read_scanner packets)
  simp only [hslices]

theorem not_forall_packets_spaced :
    ¬ ∀ packets : List QByteArray, (∀ p ∈ packets, p ≠ []) → packets.flatten = spaced →
      List.Forall₂ braces.Respaced [spaced] (JsonRpcEndpoint.read packets).slices := by
  rw [forall_packets_iff_bare stream_spaced]
  decide +kernel

/-! ## Objects in, objects out -/

/-- What the endpoints rely on of `QJsonDocument` for the objects `P`: `toJson` writes an object's text with white
space around it, and `fromJson` reads the object from it, whatever white space is left out between its tokens. -/
structure Codec (toJson : JsonObject → QByteArray) (fromJson : QByteArray → Document) (P : JsonObject → Prop) :
    Prop where
  text : ∀ o, P o → ∃ s f t, toJson o = s ++ f ++ t ∧ (∀ a ∈ s, braces.isSpace a = true) ∧
    (∀ a ∈ t, braces.isSpace a = true) ∧ IsObject f
  reads : ∀ o, P o → ∀ b, braces.Respaced (toJson o) b → fromJson b = some (.object o)

section Objects
variable {toJson : JsonObject → QByteArray} {fromJson : QByteArray → Document} {P : JsonObject → Prop}

/-- The stream that sending the objects makes. -/
theorem Codec.stream (hc : Codec toJson fromJson P) {sent : List JsonObject} (hs : ∀ o ∈ sent, P o) :
    ∃ texts, braces.Stream IsObject texts (sent.flatMap toJson) ∧
      List.Forall₂ (fun o f => ∀ b, braces.Respaced f b → fromJson b = some (.object o)) sent texts := by
  induction sent with
  | nil => exact ⟨[], .blank (by simp), .nil⟩
  | cons o sent ih =>
    obtain ⟨texts, hstream, hreads⟩ := ih fun p hp => hs p (by simp [hp])
    obtain ⟨s, f, t, ho, hsp, htp, hf⟩ := hc.text o (hs o (by simp))
    refine ⟨f :: texts, ?_, .cons ?_ hreads⟩
    · rw [List.flatMap_cons, ho, List.append_assoc]
      exact .block hsp hf (hstream.spaces_append htp)
    · intro b hb
      apply hc.reads o (hs o (by simp)) b
      rw [ho]
      exact .of_block hsp htp hf.block hb

/-- The objects read from texts that are the ones sent. -/
theorem objects_of_respaced {sent : List JsonObject} {texts slices : List QByteArray}
    (hreads : List.Forall₂ (fun o f => ∀ b, braces.Respaced f b → fromJson b = some (.object o)) sent texts)
    (h : List.Forall₂ braces.Respaced texts slices) : objects fromJson slices = sent := by
  induction hreads generalizing slices with
  | nil =>
    cases h
    rfl
  | cons hf _ ih =>
    cases h with
    | cons hb h => simp [objects, hf _ hb, ← ih h]

/-- **While no packet ends in white space inside a string, the objects received are the first ones sent, in
order; all of them once every byte is there.** -/
theorem emitted_of_clean (hc : Codec toJson fromJson P) {sent : List JsonObject} {packets : List QByteArray}
    {transit : QByteArray} (hs : ∀ o ∈ sent, P o) (hw : packets.flatten ++ transit = sent.flatMap toJson)
    (hne : ∀ p ∈ packets, p ≠ []) (hclean : ∀ q, q <+: packets → braces.Clean q.flatten) :
    (JsonRpcEndpoint.read packets).emitted fromJson <+: sent ∧
      (transit = [] → (JsonRpcEndpoint.read packets).emitted fromJson = sent) := by
  obtain ⟨texts, hstream, hreads⟩ := hc.stream hs
  rw [← hw] at hstream
  have hslices : (JsonRpcEndpoint.read packets).slices = (braces.receiveAll packets).blocks :=
    congrArg Framing.Scanner.blocks (read_scanner packets)
  rw [JsonRpcEndpoint.emitted, hslices]
  refine ⟨?_, ?_⟩
  · obtain ⟨fs₁, fs₂, rfl, hfound, -⟩ := respaced_of_clean (JsonStream.blocks hstream) hne hclean
    have htake := List.forall₂_take_append sent fs₁ fs₂ hreads
    rw [objects_of_respaced htake hfound]
    exact List.take_prefix _ _
  · rintro rfl
    rw [List.append_nil] at hstream
    exact objects_of_respaced hreads ((respaced_iff_clean (JsonStream.blocks hstream) hne).2 hclean)

end Objects

/-! ### Objects of strings -/

/-- The bytes of a text in ASCII. -/
def asciiBytes (s : String) : QByteArray := s.toList.map Char.toUInt8

/-- A text that is written as it stands. -/
def Plain (s : String) : Prop := ∀ a ∈ asciiBytes s, 0x20 ≤ a ∧ a ≠ 0x22 ∧ a ≠ 0x5C

instance (s : String) : Decidable (Plain s) :=
  List.decidableBAll (fun a => 0x20 ≤ a ∧ a ≠ 0x22 ∧ a ≠ 0x5C) (asciiBytes s)

def memberText (key value : String) (after : QByteArray) : QByteArray :=
  [0x0A, 0x20, 0x20, 0x20, 0x20] ++ (0x22 :: asciiBytes key ++ [0x22]) ++ [] ++
    0x3A :: ([0x20] ++ (0x22 :: asciiBytes value ++ [0x22]) ++ after)

def membersText : List (String × String) → QByteArray
  | [] => []
  | [(key, value)] => memberText key value [0x0A]
  | (key, value) :: members => memberText key value [] ++ 0x2C :: membersText members

/-- `QJsonDocument::toJson` of an object of plain strings, its keys in order. -/
def plainText (members : List (String × String)) : QByteArray := 0x7B :: membersText members ++ [0x7D] ++ [0x0A]

theorem derives_membersText {members : List (String × String)} (hne : members ≠ [])
    (h : ∀ p ∈ members, Plain p.1 ∧ Plain p.2) : Derives .members (membersText members) := by
  have hmember : ∀ {key value : String} {after : QByteArray}, Plain key → Plain value → Blank after →
      Derives .member (memberText key value after) := fun hk hv ha =>
    .member (by simp [Blank]) (chars_of_forall hk) (by simp [Blank])
      (.element (by simp [Blank]) (.string (chars_of_forall hv)) ha)
  induction members with
  | nil => exact absurd rfl hne
  | cons p members ih =>
    obtain ⟨hk, hv⟩ := h p List.mem_cons_self
    cases members with
    | nil => exact .lastMember (hmember hk hv (by simp [Blank]))
    | cons q members =>
      exact .nextMember (hmember hk hv (by simp [Blank]))
        (ih (List.cons_ne_nil q members) fun r hr => h r (List.mem_cons_of_mem p hr))

/-- The keys of the protocol, in their order in a text. -/
def protocolKeys : List String := ["error", "id", "jsonrpc", "method", "params", "result"]

/-- The members of an object of strings, in the order of their keys. -/
def stringMembers (o : JsonObject) : List (String × String) :=
  protocolKeys.filterMap fun key => match o.lookup key with
    | some (.string value) => some (key, value)
    | _ => none

def toPlainJson (o : JsonObject) : QByteArray := plainText (stringMembers o)

def plainObject (members : List (String × String)) : JsonObject := members.map fun p => (p.1, .string p.2)

/-- `QJsonDocument::fromJson` on the texts of some objects of strings. -/
def fromPlainJson (known : List (List (String × String))) (b : QByteArray) : Document :=
  (known.find? fun members => braces.compact (toPlainJson (plainObject members)) = braces.compact b).map fun members =>
    .object (plainObject members)

/-- One of the objects; told by its members, which can be compared. -/
def IsKnown (known : List (List (String × String))) (o : JsonObject) : Prop := ∃ members ∈ known, o = plainObject members

def membersOf (o : JsonObject) : Option (List (String × String)) :=
  o.mapM fun p => match p.2 with
    | .string value => some (p.1, value)
    | _ => none

theorem plainObject_of_membersOf {o : JsonObject} {members : List (String × String)} (h : membersOf o = some members) :
    o = plainObject members := by
  induction o generalizing members with
  | nil =>
    obtain rfl := Option.some.inj h
    rfl
  | cons p o ih =>
    obtain ⟨key, v⟩ := p
    simp only [membersOf, List.mapM_cons, Option.bind_eq_bind, Option.bind_eq_some_iff] at h
    obtain ⟨q, hq, rest, hrest, hcons⟩ := h
    obtain rfl := Option.some.inj hcons
    cases v with
    | string value =>
      obtain rfl := Option.some.inj hq
      rw [ih hrest]
      rfl
    | _ => cases hq

theorem codec_of_known {known : List (List (String × String))}
    (hdistinct : (known.map fun members => braces.compact (toPlainJson (plainObject members))).Nodup)
    (hplain : ∀ members ∈ known, stringMembers (plainObject members) ≠ [] ∧
      ∀ p ∈ stringMembers (plainObject members), Plain p.1 ∧ Plain p.2) :
    Codec toPlainJson (fromPlainJson known) (IsKnown known) where
  text := by
    rintro _ ⟨members, hmem, rfl⟩
    obtain ⟨hne, hp⟩ := hplain members hmem
    exact ⟨[], _, [0x0A], rfl, by simp, by simp [braces, isspace], _, rfl, .inr (derives_membersText hne hp)⟩
  reads := by
    rintro _ ⟨members, hmem, rfl⟩ b hb
    have hfind : known.find? (fun ps => braces.compact (toPlainJson (plainObject ps)) = braces.compact b) =
        some members := by
      rw [hb.2]
      clear hplain hb
      induction known with
      | nil => cases hmem
      | cons ps known ih =>
        obtain ⟨hnot, hnodup⟩ := List.nodup_cons.1 hdistinct
        rw [List.find?_cons]
        rcases List.mem_cons.1 hmem with rfl | hmem
        · simp
        · have hne : braces.compact (toPlainJson (plainObject ps)) ≠ braces.compact (toPlainJson (plainObject members)) := by
            intro heq
            exact hnot (List.mem_map.2 ⟨members, hmem, heq.symm⟩)
          simpa [hne] using ih hnodup hmem
    rw [fromPlainJson, hfind]
    rfl

end SegsLauncher
