import SimplePki.Octets.Base64
import SimplePki.Proofs.Octets.Utf8

/-!
# Base64 notation is read back

The padded spelling of octets is the symbols of their values, six bits each, and as many padding
signs as fill the last group.  Reading takes the padding off, the values back from the symbols, and
the octets back from the values.

## Main definitions

* `Base64.values`: the values of octets, six bits each

## Main results

* `Base64.encodeOctets_eq`: the padded spelling as symbols and padding
* `Base64.decode_encodeOctets`: octets are read back from their padded spelling
* `Base64.length_le_of_decode`: octets are never longer than what they are read from
-/

namespace SimplePki.Base64

open Octets

/-! ### Symbols -/

theorem value?_symbol {value : Nat} (small : value < 64) : value? (symbol value) = some value := by
  revert value
  decide

/-- Symbols are ASCII, and can be told from padding, from whitespace, from a bar and from a brace. -/
theorem symbol_plain {value : Nat} (small : value < 64) :
    isAscii (symbol value) = true ∧ symbol value ≠ pad ∧ isBlank (symbol value) = false ∧
      symbol value ≠ 0x7C ∧ symbol value ≠ 0x7D := by
  revert value
  decide

/-! ### Values -/

/-- The values of octets, six bits each; what is missing in the last one is zero. -/
def values : Octets → List Nat
  | a :: b :: c :: rest =>
    let n := a.toNat * 65536 + b.toNat * 256 + c.toNat
    n / 262144 :: n / 4096 % 64 :: n / 64 % 64 :: n % 64 :: values rest
  | [a, b] =>
    let n := a.toNat * 256 + b.toNat
    [n / 1024, n / 16 % 64, n % 16 * 4]
  | [a] => [a.toNat / 4, a.toNat % 4 * 16]
  | [] => []

/-- How many padding signs fill the last group. -/
def padding (octets : Octets) : Nat := (3 - octets.length % 3) % 3

theorem values_lt {octets : Octets} : ∀ value ∈ values octets, value < 64 := by
  induction octets using values.induct with
  | case1 a b c rest ih =>
    have ha : a.toNat < 256 := a.toNat_lt
    have hb : b.toNat < 256 := b.toNat_lt
    have hc : c.toNat < 256 := c.toNat_lt
    intro value mem
    simp only [values, List.mem_cons] at mem
    rcases mem with rfl | rfl | rfl | rfl | later
    · omega
    · omega
    · omega
    · omega
    · exact ih value later
  | case2 a b =>
    have ha : a.toNat < 256 := a.toNat_lt
    have hb : b.toNat < 256 := b.toNat_lt
    intro value mem
    simp only [values, List.mem_cons, List.not_mem_nil, or_false] at mem
    omega
  | case3 a =>
    have ha : a.toNat < 256 := a.toNat_lt
    intro value mem
    simp only [values, List.mem_cons, List.not_mem_nil, or_false] at mem
    omega
  | case4 => exact fun _ mem => absurd mem List.not_mem_nil

theorem length_values_add_padding (octets : Octets) :
    ((values octets).length + padding octets) % 4 = 0 := by
  induction octets using values.induct with
  | case1 a b c rest ih =>
    simp only [values, padding, List.length_cons] at ih ⊢
    omega
  | case2 a b => simp [values, padding]
  | case3 a => simp [values, padding]
  | case4 => rfl

/-! ### Writing -/

theorem go_eq (written octets : Octets) :
    encodeOctets.go written octets =
      written.reverse ++ ((values octets).map symbol ++ List.replicate (padding octets) pad) := by
  -- the symbols written so far are kept in reverse
  induction octets using values.induct generalizing written with
  | case1 a b c rest ih =>
    have same : padding (a :: b :: c :: rest) = padding rest := by
      simp only [padding, List.length_cons]
      omega
    rw [encodeOctets.go, ih, values, same]
    simp
  | case2 a b =>
    rw [encodeOctets.go, values]
    simp [padding]
  | case3 a =>
    rw [encodeOctets.go, values]
    simp [padding, List.replicate]
  | case4 =>
    rw [encodeOctets.go, values]
    simp [padding]

/-- The padded spelling is the symbols of the values, and the padding. -/
theorem encodeOctets_eq (octets : Octets) :
    encodeOctets octets =
      (values octets).map symbol ++ List.replicate (padding octets) pad := by
  rw [encodeOctets, go_eq, List.reverse_nil, List.nil_append]

/-- The octets of the padded spelling are ASCII, and neither whitespace nor a bar nor a brace. -/
theorem plain_of_mem_encodeOctets {octets : Octets} {octet : UInt8}
    (mem : octet ∈ encodeOctets octets) :
    isAscii octet = true ∧ isBlank octet = false ∧ octet ≠ 0x7C ∧ octet ≠ 0x7D := by
  rw [encodeOctets_eq, List.mem_append] at mem
  rcases mem with isSymbol | isPad
  · obtain ⟨value, known, rfl⟩ := List.mem_map.mp isSymbol
    obtain ⟨ascii, -, notBlank, noBar, noBrace⟩ := symbol_plain (values_lt value known)
    exact ⟨ascii, notBlank, noBar, noBrace⟩
  · rw [(List.mem_replicate.mp isPad).2]
    decide

/-! ### Reading -/

/-- Padding that fills the last group is taken off. -/
theorem stripPadding_append {symbols : Octets} {count : Nat}
    (noPad : ∀ octet ∈ symbols, octet ≠ pad) (few : count < 3)
    (whole : (symbols.length + count) % 4 = 0) :
    stripPadding (symbols ++ List.replicate count pad) = symbols := by
  have groups : (symbols ++ List.replicate count pad).length % 4 = 0 := by
    rw [List.length_append, List.length_replicate, whole]
  have last : ∀ octet rest, symbols.reverse = octet :: rest → octet ≠ 0x3D := by
    intro octet rest reversed
    apply noPad
    rw [← List.mem_reverse, reversed]
    exact List.mem_cons_self
  rw [stripPadding, if_pos groups, List.reverse_append, List.reverse_replicate]
  -- behind the padding stands a symbol, or nothing
  rcases count with _ | _ | _ | count
  · rw [List.replicate_zero, List.nil_append, List.append_nil]
    split
    · next rest reversed => exact absurd rfl (last _ _ reversed)
    · next rest _ reversed => exact absurd rfl (last _ _ reversed)
    · rfl
  · rw [List.replicate_one, List.singleton_append, pad]
    split
    · next rest reversed => exact absurd rfl (last _ _ (List.cons.inj reversed).2)
    · next rest _ reversed => rw [← (List.cons.inj reversed).2, List.reverse_reverse]
    · next other => exact absurd rfl (other symbols.reverse)
  · exact List.reverse_reverse symbols
  · omega

theorem mapM_value?_map_symbol {values : List Nat} (small : ∀ value ∈ values, value < 64) :
    (values.map symbol).mapM value? = some values := by
  induction values with
  | nil => rfl
  | cons value values ih =>
    have others := ih fun other mem => small other (List.mem_cons_of_mem _ mem)
    rw [List.map_cons, List.mapM_cons, value?_symbol (small value List.mem_cons_self), others]
    rfl

/-- Four groups of six bits make up their number. -/
theorem join_four (n : Nat) :
    n / 262144 * 262144 + n / 4096 % 64 * 4096 + n / 64 % 64 * 64 + n % 64 = n := by
  omega

/-- Three groups make up four times their number, the last two bits being zero. -/
theorem join_three (n : Nat) : n / 1024 * 4096 + n / 16 % 64 * 64 + n % 16 * 4 = n * 4 := by
  omega

theorem joinValues?_values (read octets : Octets) :
    joinValues? read (values octets) = some (read.reverse ++ octets) := by
  induction octets using values.induct generalizing read with
  | case1 a b c rest ih =>
    have ha : a.toNat < 256 := a.toNat_lt
    have hb : b.toNat < 256 := b.toNat_lt
    have hc : c.toNat < 256 := c.toNat_lt
    rw [values]
    generalize known : a.toNat * 65536 + b.toNat * 256 + c.toNat = n
    have first : n / 65536 = a.toNat := by omega
    have second : n / 256 % 256 = b.toNat := by omega
    have third : n % 256 = c.toNat := by omega
    rw [joinValues?]
    rw [join_four, first, second, third, ih]
    simp
  | case2 a b =>
    have ha : a.toNat < 256 := a.toNat_lt
    have hb : b.toNat < 256 := b.toNat_lt
    rw [values]
    generalize known : a.toNat * 256 + b.toNat = n
    have unused : n * 4 % 4 = 0 := by omega
    have first : n * 4 / 1024 = a.toNat := by omega
    have second : n * 4 / 4 % 256 = b.toNat := by omega
    rw [joinValues?]
    rw [join_three, if_pos unused, first, second]
    simp
  | case3 a =>
    have ha : a.toNat < 256 := a.toNat_lt
    have joined : a.toNat / 4 * 64 + a.toNat % 4 * 16 = a.toNat * 16 := by omega
    have unused : a.toNat * 16 % 16 = 0 := by omega
    have first : a.toNat * 16 / 16 = a.toNat := by omega
    rw [values, joinValues?]
    rw [joined, if_pos unused, first]
    simp
  | case4 =>
    rw [values, joinValues?, List.append_nil]

theorem ne_pad_of_mem_symbols {octets : Octets} :
    ∀ octet ∈ (values octets).map symbol, octet ≠ pad := by
  intro octet mem
  obtain ⟨value, known, rfl⟩ := List.mem_map.mp mem
  exact (symbol_plain (values_lt value known)).2.1

theorem decodeUnpadded?_symbols (octets : Octets) :
    decodeUnpadded? ((values octets).map symbol) = some octets := by
  rw [decodeUnpadded?, mapM_value?_map_symbol values_lt]
  exact joinValues?_values [] octets

/-- Octets are read back from their padded spelling. -/
theorem decode_encodeOctets (octets : Octets) : decode (encodeOctets octets) = .ok octets := by
  have whole : (((values octets).map symbol).length + padding octets) % 4 = 0 := by
    rw [List.length_map]
    exact length_values_add_padding octets
  have few : padding octets < 3 := Nat.mod_lt _ (by decide)
  have unpadded := stripPadding_append ne_pad_of_mem_symbols few whole
  rw [decode, encodeOctets_eq, unpadded, decodeUnpadded?_symbols]

/-! ### Lengths -/

theorem length_stripPadding_le (symbols : Octets) :
    (stripPadding symbols).length ≤ symbols.length := by
  unfold stripPadding
  split
  · have size : symbols.reverse.length = symbols.length := List.length_reverse
    split
    · next rest padded =>
      rw [padded, List.length_cons, List.length_cons] at size
      rw [List.length_reverse]
      omega
    · next rest _ padded =>
      rw [padded, List.length_cons] at size
      rw [List.length_reverse]
      omega
    · exact Nat.le_refl _
  · exact Nat.le_refl _

theorem length_of_mapM {symbols : Octets} {found : List Nat}
    (h : symbols.mapM value? = some found) : found.length = symbols.length := by
  induction symbols generalizing found with
  | nil =>
    obtain rfl := Option.some.inj h
    rfl
  | cons symbol symbols ih =>
    rw [List.mapM_cons] at h
    obtain ⟨value, -, h⟩ := Option.bind_eq_some_iff.mp h
    obtain ⟨others, known, made⟩ := Option.bind_eq_some_iff.mp h
    obtain rfl := Option.some.inj made
    rw [List.length_cons, List.length_cons, ih known]

/-- Four values make three octets, and fewer make fewer. -/
theorem length_le_of_joinValues? {read octets : Octets} {found : List Nat}
    (h : joinValues? read found = some octets) : octets.length ≤ read.length + found.length := by
  fun_induction joinValues? read found with
  | case1 read a b c d rest n ih =>
    have shorter := ih h
    simp only [List.length_cons] at shorter ⊢
    omega
  | case2 read a b c n unused =>
    obtain rfl := Option.some.inj h
    simp
  | case3 => exact nomatch h
  | case4 read a b n unused =>
    obtain rfl := Option.some.inj h
    simp
  | case5 => exact nomatch h
  | case6 => exact nomatch h
  | case7 read =>
    obtain rfl := Option.some.inj h
    simp

/-- What is read from a notation is no longer than the notation. -/
theorem length_le_of_decode {symbols octets : Octets} (h : decode symbols = .ok octets) :
    octets.length ≤ symbols.length := by
  unfold decode at h
  split at h
  · next found unpadded =>
    obtain rfl := Except.ok.inj h
    obtain ⟨values, known, joined⟩ := Option.bind_eq_some_iff.mp unpadded
    have shorter := length_le_of_joinValues? joined
    rw [List.length_nil, Nat.zero_add, length_of_mapM known] at shorter
    exact shorter.trans (length_stripPadding_le symbols)
  · exact nomatch h

end SimplePki.Base64
