import Maof.Transport.Signing

/-!
# Canary cohorts

Routing by a stable key, so that one run always sees the same version.
-/

namespace Maof

/-- `int.from_bytes(sha256(key).digest()[:4], "big") % 100`. -/
def canaryBucket (p : Platform) (key : String) : Nat :=
  ((p.sha256 key).toList.take 8).foldl (fun n c => n * 16 + JsonText.hexVal c) 0 % 100

def inCanary (p : Platform) (key : String) (canaryPct : PyFloat) : Bool :=
  if canaryPct.le .zero then false
  else if PyFloat.le (.ofInt 100) canaryPct then true
  else PyFloat.lt (.ofInt (canaryBucket p key)) canaryPct

def chooseRuleset (p : Platform) (stable : LoadedRuleset) (canary : Option LoadedRuleset) (key : String) :
    LoadedRuleset :=
  match canary with
  | some canary => if inCanary p key canary.canaryPct then canary else stable
  | none => stable

/-- Deterministic per-run membership in a manifest's canary cohort. -/
def inCanaryCohort (p : Platform) (runId : RunId) (canaryPct : PyFloat) : Bool :=
  inCanary p runId canaryPct

end Maof
