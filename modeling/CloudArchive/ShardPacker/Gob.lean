import CloudArchive.Tags.TagMan

/-!
# ShardPacker — the `tagsupdate` payload

`Packer.AddTags` gob-encodes a `[]tags.TagPair` into the `tagsupdate` entry and
`Unpacker.updateTags` gob-decodes whatever bytes that entry holds. The codec is modelled as a
lossless framing: a `GobCodec` is an encoder, a decoder that may reject its input, and the
law that decoding an encoding gives the list back. The shard codec's results hold for every
such codec.

`gobModel` is one concrete codec, length-free and self-delimiting: a `1` byte before each
pair and each rune, a `0` byte after the last, runes in three bytes, ids in two.
-/

namespace CloudArchive.ShardPacker

open CloudArchive.Tags

/-- A byte stream. -/
abbrev Bytes := List UInt8

/-- `encoding/gob` on `[]tags.TagPair`, as a lossless framing. -/
structure GobCodec where
  encode : List TagPair → Bytes
  decode : Bytes → Option (List TagPair)
  decode_encode : ∀ l, decode (encode l) = some l

/-! ## A concrete codec -/

/-- The three bytes of a rune (runes are below `0x110000`). -/
def runeBytes (c : Char) : Bytes :=
  [UInt8.ofNat (c.toNat / 65536), UInt8.ofNat (c.toNat / 256 % 256), UInt8.ofNat (c.toNat % 256)]

/-- A name: `1` and three bytes per rune, then `0`. -/
def encodeName : List Char → Bytes
  | [] => [0]
  | c :: cs => 1 :: runeBytes c ++ encodeName cs

/-- Read a name off the front of the stream. -/
def decodeName : Bytes → Option (List Char × Bytes)
  | 0 :: rest => some ([], rest)
  | 1 :: b2 :: b1 :: b0 :: rest =>
    (decodeName rest).map fun (cs, r) =>
      (Char.ofNat (b2.toNat * 65536 + b1.toNat * 256 + b0.toNat) :: cs, r)
  | _ => none

/-- A pair: its name, then its id in two bytes. -/
def encodePair (p : TagPair) : Bytes :=
  encodeName p.name.data ++ [UInt8.ofNat (p.value.toNat / 256), UInt8.ofNat (p.value.toNat % 256)]

/-- A list: `1` before each pair, `0` after the last. -/
def encodeList : List TagPair → Bytes
  | [] => [0]
  | p :: ps => 1 :: encodePair p ++ encodeList ps

/-- Read a list off the front of the stream; `fuel` bounds the number of pairs. -/
def decodeList : Nat → Bytes → Option (List TagPair × Bytes)
  | _ + 1, 0 :: rest => some ([], rest)
  | fuel + 1, 1 :: rest =>
    match decodeName rest with
    | some (cs, hi :: lo :: r) =>
      (decodeList fuel r).map fun (ps, r') =>
        (⟨⟨cs⟩, UInt16.ofNat (hi.toNat * 256 + lo.toNat)⟩ :: ps, r')
    | _ => none
  | _, _ => none

theorem runeBytes_decode (c : Char) :
    Char.ofNat ((UInt8.ofNat (c.toNat / 65536)).toNat * 65536 +
      (UInt8.ofNat (c.toNat / 256 % 256)).toNat * 256 + (UInt8.ofNat (c.toNat % 256)).toNat) = c := by
  have hc : c.toNat < 0x110000 := by
    rcases c.valid with h | ⟨_, h⟩ <;> simp only [Char.toNat] <;> omega
  rw [UInt8.toNat_ofNat_of_lt (by simp only [UInt8.size]; omega),
    UInt8.toNat_ofNat_of_lt (by simp only [UInt8.size]; omega),
    UInt8.toNat_ofNat_of_lt (by simp only [UInt8.size]; omega)]
  rw [show c.toNat / 65536 * 65536 + c.toNat / 256 % 256 * 256 + c.toNat % 256 = c.toNat by omega,
    Char.ofNat_toNat]

theorem decodeName_encodeName (cs : List Char) (rest : Bytes) :
    decodeName (encodeName cs ++ rest) = some (cs, rest) := by
  induction cs with
  | nil => rfl
  | cons c cs ih =>
    show decodeName (1 :: _ :: _ :: _ :: (encodeName cs ++ rest)) = _
    rw [decodeName, ih, Option.map_some', runeBytes_decode]

theorem value_decode (v : UInt16) :
    UInt16.ofNat ((UInt8.ofNat (v.toNat / 256)).toNat * 256 + (UInt8.ofNat (v.toNat % 256)).toNat) = v := by
  have hv := v.toNat_lt_size
  simp only [UInt16.size] at hv
  rw [UInt8.toNat_ofNat_of_lt (by simp only [UInt8.size]; omega),
    UInt8.toNat_ofNat_of_lt (by simp only [UInt8.size]; omega),
    show v.toNat / 256 * 256 + v.toNat % 256 = v.toNat by omega]
  exact UInt16.toNat.inj (UInt16.toNat_ofNat_of_lt (by simp only [UInt16.size]; omega))

theorem decodeList_encodeList (l : List TagPair) (rest : Bytes) (fuel : Nat)
    (h : l.length < fuel) : decodeList fuel (encodeList l ++ rest) = some (l, rest) := by
  induction l generalizing fuel with
  | nil => cases fuel <;> first | omega | rfl
  | cons p ps ih =>
    obtain ⟨fuel, rfl⟩ : ∃ f, fuel = f + 1 := ⟨fuel - 1, by simp at h; omega⟩
    have e : encodeList (p :: ps) ++ rest = 1 :: (encodeName p.name.data ++
        (UInt8.ofNat (p.value.toNat / 256) :: UInt8.ofNat (p.value.toNat % 256) ::
          (encodeList ps ++ rest))) := by
      simp [encodeList, encodePair]
    rw [e, decodeList, decodeName_encodeName]
    simp only [ih fuel (by simp at h; omega), Option.map_some', value_decode]

/-- The concrete codec. -/
def gobModel : GobCodec where
  encode := encodeList
  decode b := (decodeList b.length b).map (·.1)
  decode_encode l := by
    have hlen : l.length < (encodeList l).length := by
      induction l with
      | nil => simp [encodeList]
      | cons p ps ih => simp only [encodeList, List.length_cons, List.length_append,
          List.cons_append]; omega
    have h := decodeList_encodeList l [] _ hlen
    rw [List.append_nil] at h
    simp only [h, Option.map_some']

end CloudArchive.ShardPacker
