import Maof.Platform

/-!
# Message signing
-/

namespace Maof

open Data (Dict)

structure Signer where
  keys : Dict String String
  activeKid : String := "default"

def kidAliases : List String := ["kid", "x-hmac-kid", "x-sign-kid"]

def sigAliases : List String := ["sig", "x-hmac-sig", "x-signature"]

/-- The value under the first alias present; later spellings of one name win. -/
def extractHeader (headers : Dict String String) (aliases : List String) : Option String :=
  let lowered := Dict.update [] (headers.map fun kv => (kv.1.toLower, kv.2))
  aliases.findSome? (Dict.get lowered)

namespace Signer

def sign (p : Platform) (s : Signer) (body : String) : Except Exn String :=
  match Dict.get s.keys s.activeKid with
  | some secret => .ok (p.hmacSha256 secret body)
  | none => .error (.keyError s.activeKid)

def verify (p : Platform) (s : Signer) (body : String) (headers : Dict String String) :
    Except Exn Unit :=
  let kid := (extractHeader headers kidAliases).getD ""
  let sig := (extractHeader headers sigAliases).getD ""
  if kid = "" ∨ sig = "" then .error (.signature "missing signing headers (kid/sig)")
  else match Dict.get s.keys kid with
    | none =>
        .error (.signature ("unknown signing key id: " ++ Template.reprText p.unicode (.str kid)))
    | some secret =>
        if (p.hmacSha256 secret body).toLower = sig.toLower then .ok ()
        else .error (.signature "signature mismatch")

end Signer

/-- The headers the signer writes are found under their first aliases. -/
theorem extractHeader_signed (kid sig : String) :
    extractHeader [("kid", kid), ("sig", sig)] kidAliases = some kid ∧
      extractHeader [("kid", kid), ("sig", sig)] sigAliases = some sig := by
  have lowerKid : "kid".toLower = "kid" := by decide +kernel
  have lowerSig : "sig".toLower = "sig" := by decide +kernel
  simp only [extractHeader, List.map_cons, List.map_nil, lowerKid, lowerSig]
  exact ⟨rfl, rfl⟩

namespace Signer

variable {p : Platform} {signer : Signer}

theorem verify_ok {body kid sig : String} :
    signer.verify p body [("kid", kid), ("sig", sig)] = .ok () ↔ kid ≠ "" ∧ sig ≠ "" ∧
      ∃ secret, Dict.get signer.keys kid = some secret ∧ (p.hmacSha256 secret body).toLower = sig.toLower := by
  obtain ⟨key, text⟩ := extractHeader_signed kid sig
  simp only [verify, key, text, Option.getD_some]
  split
  · next missing =>
      constructor
      · rintro ⟨⟩
      · rintro ⟨named, signed, _⟩
        exact (missing.elim named signed).elim
  · next present =>
      rw [not_or] at present
      cases held : Dict.get signer.keys kid with
      | none => simp
      | some secret => simp [present.1, present.2]

end Signer

end Maof
