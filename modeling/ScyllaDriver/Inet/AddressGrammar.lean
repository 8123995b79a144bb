import ScyllaDriver.Inet.AddressParser

/-!
# The text forms of an IP address

`Denotes text inet` says which address a text denotes, in the words of the
address formats and without a parser: a dotted quad, eight groups of hex
digits, or fewer groups with one `::` in place of the missing ones; the last
two groups may be written as a dotted quad.

A parser meets the text from the left. `Reads` is the same language seen
that way: what may follow when some bytes were already read, and perhaps a
`::` at a known place. `denotes_iff_reads` connects the two views.
-/

namespace ScyllaDriver
namespace Inet

open CString Positional

/-- One to four hex digits. -/
structure IsGroup (t : Bytes) : Prop where
  nonempty : t ≠ []
  short : t.length ≤ 4
  digits : ∀ c ∈ t, isxdigit c = true

def groupValue (t : Bytes) : Nat :=
  value 16 (t.map digitValue)

/-- The two bytes of a group, the high one first. -/
def groupBytes (t : Bytes) : Bytes :=
  [UInt8.ofNat (groupValue t / 256), UInt8.ofNat (groupValue t)]

@[simp] theorem groupBytes_length (t : Bytes) : (groupBytes t).length = 2 :=
  rfl

/-- Bytes in decimal, without leading zeros, with dots between them. -/
def dottedText (bytes : Bytes) : Bytes :=
  List.intercalate [chr '.'] (bytes.map fun b => decimalText b.toNat)

/-- The bytes of a dotted quad. -/
structure Quad where
  bytes : Bytes
  four : bytes.length = 4

def Quad.text (q : Quad) : Bytes :=
  dottedText q.bytes

/-- Groups one after the other, the last two perhaps as a dotted quad. -/
inductive Piece
  | empty
  | quad (q : Quad)
  | group (t : Bytes) (ht : IsGroup t) (rest : Piece)

namespace Piece

def texts : Piece → List Bytes
  | .empty => []
  | .quad q => [q.text]
  | .group t _ rest => t :: rest.texts

/-- The groups and the quad with colons between them. -/
def text (p : Piece) : Bytes :=
  List.intercalate [chr ':'] p.texts

def bytes : Piece → Bytes
  | .empty => []
  | .quad q => q.bytes
  | .group t _ rest => groupBytes t ++ rest.bytes

/-- How many groups of sixteen bits the piece stands for. -/
def size : Piece → Nat
  | .empty => 0
  | .quad _ => 2
  | .group _ _ rest => rest.size + 1

@[simp] theorem bytes_length (p : Piece) : p.bytes.length = 2 * p.size := by
  induction p with
  | empty =>
    rfl
  | quad q =>
    simp [bytes, size, q.four]
  | group t ht rest ih =>
    simp only [bytes, size, List.length_append, groupBytes_length, ih]
    omega

theorem texts_eq_nil_iff (p : Piece) : p.texts = [] ↔ p.size = 0 := by
  cases p <;> simp [texts, size]

@[simp] theorem text_quad (q : Quad) : (Piece.quad q).text = q.text := by
  simp [text, texts]

theorem text_group_last {t : Bytes} (ht : IsGroup t) {rest : Piece} (hrest : rest.size = 0) :
    (Piece.group t ht rest).text = t := by
  simp [text, texts, (texts_eq_nil_iff rest).mpr hrest]

theorem text_group {t : Bytes} (ht : IsGroup t) {rest : Piece} (hrest : rest.size ≠ 0) :
    (Piece.group t ht rest).text = t ++ chr ':' :: rest.text := by
  have hne : rest.texts ≠ [] := by
    rwa [Ne, texts_eq_nil_iff]
  simp [text, texts, List.intercalate_cons_of_ne_nil hne]

theorem bytes_eq_nil {p : Piece} (h : p.size = 0) : p.bytes = [] := by
  cases p with
  | empty =>
    rfl
  | quad q =>
    cases h
  | group t ht rest =>
    cases h

end Piece

/-- The address a text denotes. -/
inductive Denotes : Bytes → CassInet → Prop
  | ipv4 (q : Quad) :
      Denotes q.text ⟨4, q.bytes⟩
  | ipv6 (p : Piece) :
      p.size = 8 →
      Denotes p.text ⟨16, p.bytes⟩
  | compressed (left : List Bytes) (right : Piece) :
      (∀ t ∈ left, IsGroup t) →
      left.length + right.size ≤ 7 →
      Denotes (List.intercalate [chr ':'] left ++ [chr ':', chr ':'] ++ right.text)
        ⟨16, left.flatMap groupBytes ++ List.replicate (2 * (8 - (left.length + right.size))) 0 ++
          right.bytes⟩

/-- The bytes `w` are a whole address: all sixteen of them, or fewer with a
block of zeros at the given place. -/
def Completes (block : Option Nat) (w : Bytes) (inet : CassInet) : Prop :=
  match block with
  | none => w.length = 16 ∧ inet = ⟨16, w⟩
  | some k =>
    w.length < 16 ∧ inet = ⟨16, w.take k ++ List.replicate (16 - w.length) 0 ++ w.drop k⟩

/-- What may follow the bytes `w`, where a field is expected. -/
inductive Reads : Option Nat → Bytes → Bytes → CassInet → Prop
  | stop {w : Bytes} {inet : CassInet} :
      Completes (some w.length) w inet →
      Reads (some w.length) w [] inet
  | last {block : Option Nat} {w t : Bytes} {inet : CassInet} :
      IsGroup t →
      Completes block (w ++ groupBytes t) inet →
      Reads block w t inet
  | quad {block : Option Nat} {w : Bytes} {inet : CassInet} (q : Quad) :
      Completes block (w ++ q.bytes) inet →
      Reads block w q.text inet
  | ipv4 (q : Quad) :
      Reads none [] q.text ⟨4, q.bytes⟩
  | group {block : Option Nat} {w t rest : Bytes} {inet : CassInet} :
      IsGroup t →
      Reads block (w ++ groupBytes t) rest inet →
      Reads block w (t ++ chr ':' :: rest) inet
  | block {w t rest : Bytes} {inet : CassInet} :
      IsGroup t →
      Reads (some (w.length + 2)) (w ++ groupBytes t) rest inet →
      Reads none w (t ++ chr ':' :: chr ':' :: rest) inet

theorem Completes.length_le {block : Option Nat} {w : Bytes} {inet : CassInet}
    (h : Completes block w inet) : w.length ≤ 16 := by
  cases block with
  | none =>
    exact le_of_eq h.1
  | some k =>
    exact le_of_lt h.1

theorem Reads.length_le {block : Option Nat} {w rest : Bytes} {inet : CassInet}
    (h : Reads block w rest inet) : w.length ≤ 16 := by
  induction h with
  | stop hc =>
    exact hc.length_le
  | last _ hc =>
    have := hc.length_le
    simp only [List.length_append, groupBytes_length] at this
    omega
  | quad q hc =>
    have := hc.length_le
    simp only [List.length_append] at this
    omega
  | ipv4 q =>
    simp
  | group _ _ ih | block _ _ ih =>
    simp only [List.length_append, groupBytes_length] at ih
    omega

/-- After a `::` a piece follows. It may be empty right after the `::` only. -/
theorem reads_some_iff {k : Nat} {w rest : Bytes} {inet : CassInet} (hk : k ≤ w.length) :
    Reads (some k) w rest inet ↔
      ∃ p : Piece,
        rest = p.text ∧
        (p.size = 0 → w.length = k) ∧
        Completes (some k) (w ++ p.bytes) inet := by
  constructor
  · intro h
    generalize hblock : some k = block at h
    induction h with
    | @stop w inet hc =>
      cases hblock
      exact ⟨.empty, rfl, fun _ => rfl, by simpa [Piece.bytes] using hc⟩
    | @last block w t inet ht hc =>
      subst hblock
      refine ⟨.group t ht .empty, ?_, ?_, ?_⟩
      · exact (Piece.text_group_last ht rfl).symm
      · intro h
        cases h
      · simpa [Piece.bytes] using hc
    | @quad block w inet q hc =>
      subst hblock
      refine ⟨.quad q, (Piece.text_quad q).symm, ?_, hc⟩
      intro h
      cases h
    | @group block w t rest inet ht _ ih =>
      subst hblock
      obtain ⟨p, rfl, hstop, hc⟩ := ih (by simp; omega) rfl
      have hsize : p.size ≠ 0 := by
        intro h
        have := hstop h
        simp only [List.length_append, groupBytes_length] at this
        omega
      refine ⟨.group t ht p, (Piece.text_group ht hsize).symm, ?_, ?_⟩
      · intro h
        cases h
      · simpa [Piece.bytes] using hc
    | ipv4 q | block _ _ _ =>
      cases hblock
  · rintro ⟨p, rfl, hstop, hc⟩
    induction p generalizing w with
    | empty =>
      obtain rfl := hstop rfl
      exact .stop (by simpa [Piece.bytes] using hc)
    | quad q =>
      rw [Piece.text_quad]
      exact .quad q hc
    | group t ht rest ih =>
      rw [Piece.bytes, ← List.append_assoc] at hc
      by_cases hrest : rest.size = 0
      · rw [Piece.text_group_last ht hrest]
        rw [Piece.bytes_eq_nil hrest, List.append_nil] at hc
        exact .last ht hc
      · rw [Piece.text_group ht hrest]
        refine .group ht (ih ?_ ?_ hc)
        · simp only [List.length_append]
          omega
        · intro h
          exact absurd h hrest

/-- Before any `::` there follow a quad alone, a piece, or groups with a `::`
after them and a piece after that. -/
theorem reads_none_iff {w rest : Bytes} {inet : CassInet} :
    Reads none w rest inet ↔
      (w = [] ∧ ∃ q : Quad, rest = q.text ∧ inet = ⟨4, q.bytes⟩) ∨
      (∃ p : Piece, p.size ≠ 0 ∧ rest = p.text ∧ Completes none (w ++ p.bytes) inet) ∨
      ∃ (left : List Bytes) (right : Piece),
        left ≠ [] ∧ (∀ t ∈ left, IsGroup t) ∧
        rest =
          List.intercalate [chr ':'] left ++ [chr ':', chr ':'] ++ right.text ∧
        Completes (some (w.length + 2 * left.length))
          (w ++ left.flatMap groupBytes ++ right.bytes) inet := by
  constructor
  · intro h
    generalize hblock : none = block at h
    induction h with
    | stop _ =>
      cases hblock
    | @last block w t inet ht hc =>
      subst hblock
      refine .inr (.inl ⟨.group t ht .empty, ?_, ?_, ?_⟩)
      · simp [Piece.size]
      · exact (Piece.text_group_last ht rfl).symm
      · simpa [Piece.bytes] using hc
    | @quad block w inet q hc =>
      subst hblock
      refine .inr (.inl ⟨.quad q, ?_, (Piece.text_quad q).symm, hc⟩)
      simp [Piece.size]
    | ipv4 q =>
      exact .inl ⟨rfl, q, rfl, rfl⟩
    | @group block w t rest inet ht _ ih =>
      subst hblock
      rcases ih rfl with ⟨hw, -⟩ | ⟨p, hsize, rfl, hc⟩ | ⟨left, right, hne, hleft, rfl, hc⟩
      · simp [groupBytes] at hw
      · refine .inr (.inl ⟨.group t ht p, ?_, ?_, ?_⟩)
        · simp [Piece.size]
        · exact (Piece.text_group ht hsize).symm
        · simpa [Piece.bytes] using hc
      · refine .inr (.inr ⟨t :: left, right, by simp, ?_, ?_, ?_⟩)
        · simpa using ⟨ht, hleft⟩
        · simp [List.intercalate_cons_of_ne_nil hne]
        · have hlength :
              (w ++ groupBytes t).length + 2 * left.length = w.length + 2 * (t :: left).length := by
            simp only [List.length_append, groupBytes_length, List.length_cons]
            omega
          rw [hlength] at hc
          simpa using hc
    | @block w t rest inet ht hreads _ =>
      have hk : w.length + 2 ≤ (w ++ groupBytes t).length := by
        simp
      obtain ⟨p, rfl, -, hc⟩ := (reads_some_iff hk).mp hreads
      refine .inr (.inr ⟨[t], p, by simp, by simpa using ht, ?_, ?_⟩)
      · simp
      · simpa using hc
  · rintro (⟨rfl, q, rfl, rfl⟩ | ⟨p, hsize, rfl, hc⟩ | ⟨left, right, hne, hleft, rfl, hc⟩)
    · exact .ipv4 q
    · induction p generalizing w with
      | empty =>
        exact absurd rfl hsize
      | quad q =>
        rw [Piece.text_quad]
        exact .quad q hc
      | group t ht rest ih =>
        rw [Piece.bytes, ← List.append_assoc] at hc
        by_cases hrest : rest.size = 0
        · rw [Piece.text_group_last ht hrest]
          rw [Piece.bytes_eq_nil hrest, List.append_nil] at hc
          exact .last ht hc
        · rw [Piece.text_group ht hrest]
          exact .group ht (ih hrest hc)
    · induction left generalizing w with
      | nil =>
        exact absurd rfl hne
      | cons t left ih =>
        have ht := hleft t (by simp)
        cases left with
        | nil =>
          have hk : w.length + 2 ≤ (w ++ groupBytes t).length := by
            simp
          have hreads :
              Reads (some (w.length + 2)) (w ++ groupBytes t) right.text inet :=
            (reads_some_iff hk).mpr ⟨right, rfl, fun _ => by simp, by simpa using hc⟩
          simpa using Reads.block ht hreads
        | cons t' left =>
          have hlength :
              (w ++ groupBytes t).length + 2 * (t' :: left).length =
                w.length + 2 * (t :: t' :: left).length := by
            simp only [List.length_append, groupBytes_length, List.length_cons]
            omega
          have hreads := ih (w := w ++ groupBytes t) (by simp)
            (fun x hx => hleft x (List.mem_cons_of_mem _ hx))
            (by rw [hlength]; simpa using hc)
          have h := Reads.group ht hreads
          simpa [List.intercalate_cons_cons] using h

theorem flatMap_groupBytes_length (left : List Bytes) :
    (left.flatMap groupBytes).length = 2 * left.length := by
  induction left with
  | nil =>
    rfl
  | cons t left ih =>
    simp only [List.flatMap_cons, List.length_append, groupBytes_length, ih, List.length_cons]
    omega

theorem completes_some_iff (left : List Bytes) (right : Piece) (inet : CassInet) :
    Completes (some (2 * left.length)) (left.flatMap groupBytes ++ right.bytes) inet ↔
      left.length + right.size ≤ 7 ∧
        inet =
          ⟨16, left.flatMap groupBytes ++ List.replicate (2 * (8 - (left.length + right.size))) 0 ++
            right.bytes⟩ := by
  have hleft := flatMap_groupBytes_length left
  have htake :
      (left.flatMap groupBytes ++ right.bytes).take (2 * left.length) =
        left.flatMap groupBytes := by
    rw [← hleft, List.take_left]
  have hdrop :
      (left.flatMap groupBytes ++ right.bytes).drop (2 * left.length) = right.bytes := by
    rw [← hleft, List.drop_left]
  have hzeros :
      16 - (left.flatMap groupBytes ++ right.bytes).length =
        2 * (8 - (left.length + right.size)) := by
    simp only [List.length_append, hleft, Piece.bytes_length]
    omega
  have hroom :
      (left.flatMap groupBytes ++ right.bytes).length < 16 ↔ left.length + right.size ≤ 7 := by
    simp only [List.length_append, hleft, Piece.bytes_length]
    omega
  simp only [Completes, htake, hdrop, hzeros, hroom]

/-- An address starts with a `::` or with a field. -/
theorem denotes_iff_reads (text : Bytes) (inet : CassInet) :
    Denotes text inet ↔
      (∃ rest, text = chr ':' :: chr ':' :: rest ∧ Reads (some 0) [] rest inet) ∨
      Reads none [] text inet := by
  constructor
  · intro h
    cases h with
    | ipv4 q =>
      exact .inr (.ipv4 q)
    | ipv6 p hsize =>
      refine .inr (reads_none_iff.mpr (.inr (.inl ⟨p, by omega, rfl, ?_⟩)))
      simp [Completes, hsize]
    | compressed left right hleft hroom =>
      cases left with
      | nil =>
        refine .inl ⟨right.text, by simp, ?_⟩
        refine (reads_some_iff (Nat.zero_le _)).mpr ⟨right, rfl, fun _ => rfl, ?_⟩
        exact (completes_some_iff [] right _).mpr ⟨hroom, rfl⟩
      | cons t left =>
        refine .inr (reads_none_iff.mpr (.inr (.inr ⟨t :: left, right, by simp, hleft, rfl, ?_⟩)))
        have hc := (completes_some_iff (t :: left) right _).mpr ⟨hroom, rfl⟩
        simpa using hc
  · rintro (⟨rest, rfl, h⟩ | h)
    · obtain ⟨right, rfl, -, hc⟩ := (reads_some_iff (Nat.zero_le _)).mp h
      obtain ⟨hroom, rfl⟩ := (completes_some_iff [] right inet).mp hc
      exact .compressed [] right (by simp) hroom
    · rcases reads_none_iff.mp h with ⟨-, q, rfl, rfl⟩ | ⟨p, -, rfl, hc⟩ |
        ⟨left, right, -, hleft, rfl, hc⟩
      · exact .ipv4 q
      · obtain ⟨hlength, rfl⟩ := hc
        refine .ipv6 p ?_
        simp only [List.nil_append, Piece.bytes_length] at hlength
        omega
      · have hc' :
            Completes (some (2 * left.length)) (left.flatMap groupBytes ++ right.bytes) inet := by
          simpa using hc
        obtain ⟨hroom, rfl⟩ := (completes_some_iff left right inet).mp hc'
        exact .compressed left right hleft hroom

end Inet
end ScyllaDriver
