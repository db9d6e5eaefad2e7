import NumericRules.Script

/-! # Subscriptions

A bus keeps the listeners of each identifier in the order in which they
subscribed. A subscription is addressed by its key alone, so one listener may
subscribe any number of times. Keys are counted up and never used again.
-/

namespace NumericRules

structure Subscription (σ : Type) where
  key : SubscriptionKey
  callback : Listener σ

/-- The subscriptions of one identifier; at least one in a bus. -/
structure Bucket (σ : Type) where
  id : Identifier
  subscriptions : List (Subscription σ)

structure Bus (σ : Type) where
  buckets : List (Bucket σ) := []
  nextKey : Nat := 0

namespace Bus

/-- The subscriptions of an identifier in the order they were made. -/
def subscriptions (bus : Bus σ) (id : Identifier) : List (Subscription σ) :=
  match bus.buckets.find? (·.id == id) with
  | some bucket => bucket.subscriptions
  | none => []

/-- The listeners of an identifier in the order they subscribed. -/
def listeners (bus : Bus σ) (id : Identifier) : List (Listener σ) :=
  (bus.subscriptions id).map (·.callback)

def count (bus : Bus σ) (id : Identifier) : Nat := (bus.subscriptions id).length

def total (bus : Bus σ) : Nat := (bus.buckets.flatMap (·.subscriptions)).length

/-- Put a subscription behind the others of its identifier. -/
def insert (id : Identifier) (subscription : Subscription σ) : List (Bucket σ) → List (Bucket σ)
  | [] => [⟨id, [subscription]⟩]
  | bucket :: rest =>
      if bucket.id = id then ⟨id, bucket.subscriptions ++ [subscription]⟩ :: rest
      else bucket :: insert id subscription rest

def add (bus : Bus σ) (id : Identifier) (callback : Listener σ) : SubscriptionKey × Bus σ :=
  let key : SubscriptionKey := ⟨bus.nextKey⟩
  (key, ⟨insert id ⟨key, callback⟩ bus.buckets, bus.nextKey + 1⟩)

/-- Drop the subscription with the given key from one identifier, and the bucket
with its last one. -/
def discard (id : Identifier) (key : SubscriptionKey) : List (Bucket σ) → List (Bucket σ)
  | [] => []
  | bucket :: rest =>
      if bucket.id = id then
        match bucket.subscriptions.filter (·.key ≠ key) with
        | [] => rest
        | kept => ⟨id, kept⟩ :: rest
      else bucket :: discard id key rest

/-- End one subscription of an identifier. The answer tells whether there was
one with this key. -/
def remove (bus : Bus σ) (id : Identifier) (key : SubscriptionKey) : Bool × Bus σ :=
  ((bus.subscriptions id).any (·.key = key), { bus with buckets := discard id key bus.buckets })

/-- End all subscriptions of an identifier. The answer tells how many there
were. -/
def removeAll (bus : Bus σ) (id : Identifier) : Nat × Bus σ :=
  (bus.count id, { bus with buckets := bus.buckets.filter (·.id ≠ id) })

/-- End all subscriptions. -/
def clear (bus : Bus σ) : Bus σ := { bus with buckets := [] }

end Bus

end NumericRules
