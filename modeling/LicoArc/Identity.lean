import LicoArc.Bytes
import LicoArc.Error
import LicoArc.Interaction.Outcome

/-!
# Identity chains

The tip of an identity chain and the check of its successor.
-/

namespace LicoArc

structure ChainTip where
  endpoint : FixedBytes 32
  epoch : Nat
  digest : FixedBytes 32
  deriving DecidableEq

namespace Identity

def maxEpoch : Nat := 9007199254740991

def validateSuccessor (current : Option ChainTip) (next : ChainTip)
    (predecessor : Option (FixedBytes 32)) : Except Error Unit := do
  reject (next.epoch = 0 ∨ next.epoch > maxEpoch ∨
    current.any fun tip => tip.epoch = 0 ∨ tip.epoch ≥ maxEpoch) (.validation .boundExceeded)
  match current with
  | none =>
    if next.epoch = 1 ∧ predecessor = none then return
    throw (.validation .invalidTransition)
  | some current =>
    if next.endpoint = current.endpoint ∧ next.epoch = current.epoch + 1 ∧
        predecessor = some current.digest then return
    if next.epoch ≤ current.epoch then throw (.validation .conflict)
    throw (.validation .invalidTransition)

end Identity

end LicoArc
