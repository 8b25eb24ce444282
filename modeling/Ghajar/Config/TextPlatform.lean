import Mathlib
import Ghajar.Config.Codec

/-!
# A platform that reads its own texts

What the platform's libraries do, as far as they are relied on: an object's text is read
by `Json.read`, a long's by its digits.
-/

namespace Ghajar

def textPlatform : Platform :=
  { readObject := fun raw =>
      match Json.read raw with
      | some (.obj o) => some o
      | _ => none
    readLong := String.toInt?
    lowercase := String.map Char.toLower
    mixedPort := 10626
    httpSharePort := 18686
    psiphonSocksPort := 0 }

theorem textPlatform_readsBack : textPlatform.ReadsBack := by
  constructor
  · intro o h
    have hr := Json.read_print h
    simp only [textPlatform, hr]
  · intro n _
    exact Int.toInt?_repr n

end Ghajar
