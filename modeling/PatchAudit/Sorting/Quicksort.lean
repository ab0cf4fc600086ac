/-!
# Quicksort with safeguards

A quicksort in place that looks out for patterns.  Short ranges are sorted by insertion.  A range
that looks sorted is finished by a few insertions, one that looks reversed is turned round first,
one of many equal elements is split into the equal and the greater ones.  After a bad split some
elements are moved about, and after too many bad splits the range is sorted as a heap.

Elements are only ever swapped.  The order in which equal elements end up depends on nothing but
the results of the comparisons.
-/

namespace PatchAudit

namespace Quicksort

variable {α : Type}

/-- Whether the element at one index comes before the one at another. -/
def less (lt : α → α → Bool) (xs : Array α) (i j : Nat) : Bool :=
  match xs[i]?, xs[j]? with
  | some x, some y => lt x y
  | _, _ => false

/-! ### Short ranges and heaps -/

/-- Moves the element at an index down to its place, but not below `low`. -/
def sink (lt : α → α → Bool) (low : Nat) : Nat → Array α → Array α
  | 0, xs => xs
  | i + 1, xs =>
    if low < i + 1 && less lt xs (i + 1) i then sink lt low i (xs.swapIfInBounds (i + 1) i) else xs

/-- Moves the element at an index up to its place below `high`, in at most `fuel` steps. -/
def rise (lt : α → α → Bool) (high : Nat) : Nat → Nat → Array α → Array α
  | 0, _, xs => xs
  | fuel + 1, i, xs =>
    if i < high && less lt xs i (i - 1) then
      rise lt high fuel (i + 1) (xs.swapIfInBounds i (i - 1))
    else xs

/-- Sorts a range by insertion. -/
def insertion (lt : α → α → Bool) (xs : Array α) (low high : Nat) : Array α :=
  (List.range' (low + 1) (high - low - 1)).foldl (fun xs i => sink lt low i xs) xs

/-- Moves the root of a heap of `size` elements that starts at `low` down to its place. -/
def siftDown (lt : α → α → Bool) (low size : Nat) : Nat → Nat → Array α → Array α
  | 0, _, xs => xs
  | fuel + 1, root, xs =>
    let left := 2 * root + 1
    if size ≤ left then xs
    else
      let child :=
        if left + 1 < size && less lt xs (low + left) (low + left + 1) then left + 1 else left
      if less lt xs (low + root) (low + child) then
        siftDown lt low size fuel child (xs.swapIfInBounds (low + root) (low + child))
      else xs

/-- Sorts a range as a heap. -/
def heap (lt : α → α → Bool) (xs : Array α) (low high : Nat) : Array α :=
  let size := high - low
  let built := (List.range ((size - 1) / 2 + 1)).reverse.foldl
    (fun xs i => siftDown lt low size size i xs) xs
  (List.range size).reverse.foldl
    (fun xs i => siftDown lt low i size 0 (xs.swapIfInBounds low (low + i))) built

/-! ### Choosing a pivot -/

/-- What the elements looked at for a pivot say about a range. -/
inductive Hint where
  | unknown
  | increasing
  | decreasing
  deriving DecidableEq, Repr

/-- Two indices in the order of their elements, and the number of exchanges so far. -/
def order2 (lt : α → α → Bool) (xs : Array α) (i j swaps : Nat) : Nat × Nat × Nat :=
  if less lt xs j i then (j, i, swaps + 1) else (i, j, swaps)

/-- The index of the middle one of three elements, and the number of exchanges so far. -/
def median (lt : α → α → Bool) (xs : Array α) (i j k swaps : Nat) : Nat × Nat :=
  let (i, j, swaps) := order2 lt xs i j swaps
  let (j, _, swaps) := order2 lt xs j k swaps
  let (_, j, swaps) := order2 lt xs i j swaps
  (j, swaps)

/-- The index of a pivot for a range of at least eight elements: the middle one of three, each of
which is the middle one of three neighbours if the range is long. -/
def pivot (lt : α → α → Bool) (xs : Array α) (low high : Nat) : Nat × Hint :=
  let quarter := (high - low) / 4
  let near (i swaps : Nat) : Nat × Nat :=
    if 50 ≤ high - low then median lt xs (i - 1) i (i + 1) swaps else (i, swaps)
  let (i, swaps) := near (low + quarter) 0
  let (j, swaps) := near (low + quarter * 2) swaps
  let (k, swaps) := near (low + quarter * 3) swaps
  let (j, swaps) := median lt xs i j k swaps
  (j, if swaps = 0 then .increasing else if swaps = 12 then .decreasing else .unknown)

/-! ### Patterns -/

/-- Turns a range round. -/
def turnRound (xs : Array α) (low high : Nat) : Array α :=
  (List.range ((high - low) / 2)).foldl (fun xs i => xs.swapIfInBounds (low + i) (high - 1 - i)) xs

/-- The next word of a sequence that looks random. -/
def nextWord (r : UInt64) : UInt64 :=
  let r := r ^^^ (r <<< 13)
  let r := r ^^^ (r >>> 7)
  r ^^^ (r <<< 17)

/-- Exchanges three elements in the middle of a range with others of it. -/
def scatter (xs : Array α) (low high : Nat) : Array α :=
  let size := high - low
  let mask := 1 <<< (size.log2 + 1)
  let swap (acc : Array α × UInt64) (i : Nat) : Array α × UInt64 :=
    let r := nextWord acc.2
    let other := r.toNat % mask
    let other := if size ≤ other then other - size else other
    (acc.1.swapIfInBounds (low + size / 4 * 2 - 1 + i) (low + other), r)
  ((List.range 3).foldl swap (xs, size.toUInt64)).1

/-- The first index from `i` on, below `high`, whose element comes before the one in front of it;
`high` if there is none. -/
def firstDescent (lt : α → α → Bool) (xs : Array α) (high : Nat) : Nat → Nat → Nat
  | 0, i => i
  | fuel + 1, i =>
    if i < high && !less lt xs i (i - 1) then firstDescent lt xs high fuel (i + 1) else i

/-- Tries to sort a range that looks sorted, by at most `tries` insertions of elements out of place;
the flag tells whether the range is sorted now.  Short ranges are only looked at. -/
def patch (lt : α → α → Bool) (low high : Nat) : Nat → Nat → Array α → Array α × Bool
  | 0, _, xs => (xs, false)
  | tries + 1, i, xs =>
    let i := firstDescent lt xs high (high - i) i
    if i = high then (xs, true)
    else if high - low < 50 then (xs, false)
    else
      let xs := xs.swapIfInBounds i (i - 1)
      let xs := if 2 ≤ i - low then sink lt 0 (i - 1) xs else xs
      let xs := if 2 ≤ high - i then rise lt high (high - i) (i + 1) xs else xs
      patch lt low high tries i xs

/-! ### Splitting -/

/-- The first index from `i` to `j` at which `p` does not hold; the one after `j` if there is none. -/
def firstNot (p : Nat → Bool) : Nat → Nat → Nat → Nat
  | 0, i, _ => i
  | fuel + 1, i, j => if i ≤ j && p i then firstNot p fuel (i + 1) j else i

/-- The last index from `i` to `j` at which `p` does not hold; the one before `i` if there is
none. -/
def lastNot (p : Nat → Bool) (i : Nat) : Nat → Nat
  | 0 => 0
  | j + 1 => if i ≤ j + 1 && p (j + 1) then lastNot p i j else j + 1

/-- Exchanges elements of the indices from `i` to `j` until those that belong to the left, in the
order of comparison with the one at `low`, stand on the left.  The result has the two indices where
the sides meet. -/
def meet (left : Array α → Nat → Bool) : Nat → Array α → Nat → Nat → Array α × Nat × Nat
  | 0, xs, i, j => (xs, i, j)
  | fuel + 1, xs, i, j =>
    let i := firstNot (left xs) (j + 1 - i) i j
    let j := lastNot (fun k => !left xs k) i j
    if j < i then (xs, i, j) else meet left fuel (xs.swapIfInBounds i j) (i + 1) (j - 1)

/-- Splits a range by a pivot into smaller elements, the pivot, and the others: the new index of the
pivot, and whether the range was split already. -/
def split (lt : α → α → Bool) (xs : Array α) (low high pivot : Nat) : Array α × Nat × Bool :=
  let xs := xs.swapIfInBounds low pivot
  let left (xs : Array α) (k : Nat) : Bool := less lt xs k low
  let i := firstNot (left xs) (high - low) (low + 1) (high - 1)
  let j := lastNot (fun k => !left xs k) i (high - 1)
  let (ys, _, mid) := meet left (high - low) xs (low + 1) (high - 1)
  (ys.swapIfInBounds mid low, mid, j < i)

/-- Splits a range without elements smaller than a pivot into those equal to it and the greater
ones: the index where these begin. -/
def splitEqual (lt : α → α → Bool) (xs : Array α) (low high pivot : Nat) : Array α × Nat :=
  let xs := xs.swapIfInBounds low pivot
  let left (xs : Array α) (k : Nat) : Bool := !less lt xs low k
  let (ys, mid, _) := meet left (high - low) xs (low + 1) (high - 1)
  (ys, mid)

/-! ### Sorting -/

/-- What the last split of a range was like. -/
structure Luck where
  balanced : Bool := true
  already : Bool := true
  deriving DecidableEq, Repr

/-- Sorts a range of at most `fuel` elements, with `limit` bad splits to go. -/
def range (lt : α → α → Bool) : Nat → Nat → Luck → Nat → Nat → Array α → Array α
  | 0, _, _, _, _, xs => xs
  | fuel + 1, limit, luck, low, high, xs =>
    if high - low ≤ 12 then insertion lt xs low high
    else if limit = 0 then heap lt xs low high
    else
      let xs := if luck.balanced then xs else scatter xs low high
      let limit := if luck.balanced then limit else limit - 1
      let (p, hint) := pivot lt xs low high
      let xs := if hint = .decreasing then turnRound xs low high else xs
      let p := if hint = .decreasing then high - 1 - (p - low) else p
      let (xs, done) :=
        if luck.balanced && luck.already && hint != .unknown then
          patch lt low high 5 (low + 1) xs
        else (xs, false)
      if done then xs
      else if 0 < low && !less lt xs (low - 1) p then
        let (xs, mid) := splitEqual lt xs low high p
        range lt fuel limit luck mid high xs
      else
        let (xs, mid, already) := split lt xs low high p
        let next : Luck := ⟨(high - low) / 8 ≤ min (mid - low) (high - mid), already⟩
        if mid - low < high - mid then
          range lt fuel limit next (mid + 1) high (range lt fuel limit {} low mid xs)
        else
          range lt fuel limit next low mid (range lt fuel limit {} (mid + 1) high xs)

/-- Sorts an array. -/
def sort (lt : α → α → Bool) (xs : Array α) : Array α :=
  let limit := if xs.isEmpty then 0 else xs.size.log2 + 1
  range lt (xs.size + 1) limit {} 0 xs.size xs

end Quicksort

end PatchAudit
