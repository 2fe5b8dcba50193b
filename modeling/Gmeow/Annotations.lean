import Gmeow.Codec
import Gmeow.Store

/-!
# An encoding of annotations

The store writes annotations as JSON, which the model leaves to the environment. `codecEnv`
is an environment whose encoding reads back, for runs that read annotations.
-/

namespace Gmeow

/-- Values, by their kind. -/
def valueCodec : Codec Value :=
  (Codec.nat.pair (Codec.int.pair Codec.string)).via
    (fun
      | .null => (0, 0, "")
      | .bool b => (1, if b then 1 else 0, "")
      | .num n => (2, n, "")
      | .str s => (3, 0, s)
      | .composite s => (4, 0, s))
    (fun
      | (0, _, _) => some .null
      | (1, n, _) => some (.bool (n = 1))
      | (2, n, _) => some (.num n)
      | (3, _, s) => some (.str s)
      | (4, _, s) => some (.composite s)
      | _ => none) <| by
        rintro (_ | b | n | s | s)
        · rfl
        · cases b <;> rfl
        · rfl
        · rfl
        · rfl

/-- Maps, by their entries in order. -/
def attrsCodec : Codec Attrs :=
  (Codec.string.pair valueCodec).list.via (fun attrs => attrs.entries)
    (fun entries => if h : entries.Pairwise fun a b => a.1 < b.1 then some ⟨entries, h⟩ else none)
    fun attrs => dif_pos attrs.sorted

/-- Annotations over numbers as digests, field by field. -/
def noteCodec : Codec (AnnotationRecord Nat) :=
  (Codec.int.pair (attrsCodec.pair (Codec.nat.pair
    (Codec.string.pair (Codec.string.pair Codec.string))))).via
    (fun note => (note.generatedAt, note.data, note.objectDigest, note.analyzerName,
      note.analyzerVer, note.kind))
    (fun fields => some
      { generatedAt := fields.1, data := fields.2.1, objectDigest := fields.2.2.1
        analyzerName := fields.2.2.2.1, analyzerVer := fields.2.2.2.2.1
        kind := fields.2.2.2.2.2 })
    fun _ => rfl

/-- `plainEnv` with an encoding of annotations, an opening brace in front. -/
def codecEnv : Env Nat :=
  { plainEnv with
    marshalAnnotated := fun note => 123 :: noteCodec.encode note
    unmarshalAnnotated := fun
      | 123 :: bytes => noteCodec.decodeAll bytes
      | _ => none }

end Gmeow
