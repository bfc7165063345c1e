import Mathlib.Algebra.Ring.Nat
import Mathlib.Logic.Function.Basic

/-! # Maps in shards

A map is kept in a number of shards, each with a lock of its own. The hash of a key
selects its shard, so keys with one hash share a shard and are told apart in it.
-/

namespace VoxServer

structure ShardMap (Key Value : Type) (shardCount : ℕ := 16) where
  shards : Fin shardCount → Key → Option Value := fun _ _ => none

namespace ShardMap

variable {Key Value α : Type} {shardCount : ℕ} [NeZero shardCount] (hash : Key → UInt64)

def getShard (key : Key) : Fin shardCount := Fin.ofNat shardCount (hash key).toNat

/-- Runs the function on the shard of the key, under its lock. -/
def withShard (key : Key) (fn : (Key → Option Value) → α × (Key → Option Value))
    (m : ShardMap Key Value shardCount) : α × ShardMap Key Value shardCount :=
  let r := fn (m.shards (getShard hash key))
  (r.1, { shards := Function.update m.shards (getShard hash key) r.2 })

def find (key : Key) (m : ShardMap Key Value shardCount) : Option Value :=
  m.shards (getShard hash key) key

theorem find_withShard (key key' : Key) (fn : (Key → Option Value) → α × (Key → Option Value))
    (m : ShardMap Key Value shardCount) :
    (m.withShard hash key fn).2.find hash key' =
      if (getShard hash key' : Fin shardCount) = getShard hash key then
        (fn (m.shards (getShard hash key))).2 key' else m.find hash key' := by
  dsimp only [withShard, find]
  split
  · rename_i h
    rw [h, Function.update_self]
  · rename_i h
    rw [Function.update_of_ne h]

end ShardMap

end VoxServer
