/-!
# Reproducible shuffling

A 128-bit linear congruential generator whose output mixes the high half of the
state, and the shuffle that draws one bounded number for several positions at a
time. The same seed gives the same orders on every run.
-/

namespace ChainLab

structure Generator where
  state : BitVec 128
  deriving DecidableEq

namespace Generator

def multiplier : BitVec 128 := 0xda942042e4dd58b5

def increment : BitVec 128 := 1

def advance (g : Generator) : Generator := ⟨g.state * multiplier + increment⟩

def ofSeed (seed : BitVec 128) : Generator := (Generator.mk (seed + increment)).advance

/-- The next 64 bits: the high half of the state, mixed and scaled by the low half made odd. -/
def next64 (g : Generator) : BitVec 64 × Generator :=
  let low : BitVec 64 := g.state.setWidth 64 ||| 1
  let high : BitVec 64 := (g.state >>> 64).setWidth 64
  let high := (high ^^^ (high >>> 32)) * multiplier.setWidth 64
  let high := (high ^^^ (high >>> 48)) * low
  (high, g.advance)

/-- The low half of the next 64 bits. -/
def next32 (g : Generator) : Nat × Generator :=
  let (bits, g) := g.next64
  (bits.toNat % UInt32.size, g)

/-- A number below `bound`: the integer part of a 32-bit fraction times `bound`,
with 32 more bits drawn when they could carry into it. -/
def below (g : Generator) (bound : Nat) : Nat × Generator :=
  let (draw, g) := g.next32
  let whole := draw * bound / UInt32.size
  let fraction := draw * bound % UInt32.size
  if UInt32.size - bound < fraction then
    let (draw, g) := g.next32
    let carry := if UInt32.size ≤ fraction + draw * bound / UInt32.size then 1 else 0
    (whole + carry, g)
  else (whole, g)

end Generator

/-- The product `m (m + 1) …` with as many factors as stay below `2 ^ 32`, and their number. -/
def longestProduct : (fuel : Nat) → (next product count : Nat) → Nat × Nat
  | 0, _, product, count => (product, count)
  | fuel + 1, next, product, count =>
    if product * next < UInt32.size then longestProduct fuel (next + 1) (product * next) (count + 1)
    else (product, count)

/-- Where the next positions come from: one drawn number serves `remaining` of them. -/
structure IndexSource where
  generator : Generator
  chunk : Nat
  remaining : Nat

/-- An index below `m`. -/
def IndexSource.draw (source : IndexSource) (m : Nat) : Nat × IndexSource :=
  let filled : IndexSource :=
    if source.remaining = 0 then
      let (bound, count) := longestProduct 32 m 1 0
      let (chunk, generator) := source.generator.below bound
      ⟨generator, chunk, count - 1⟩
    else { source with remaining := source.remaining - 1 }
  if filled.remaining = 0 then (filled.chunk, filled)
  else (filled.chunk % m, { filled with chunk := filled.chunk / m })

/-- Swap each of the positions `i`, …, `i + count - 1` with one up to itself. -/
def shuffleFrom {α : Type} (source : IndexSource) (i : Nat) :
    (count : Nat) → Array α → Array α × IndexSource
  | 0, items => (items, source)
  | count + 1, items =>
    let (index, source) := source.draw (i + 1)
    shuffleFrom source (i + 1) count (items.swapIfInBounds i index)

/-- A random order of the items; nothing is drawn for fewer than two. -/
def Generator.shuffle {α : Type} (g : Generator) (items : List α) : List α × Generator :=
  if items.length ≤ 1 then (items, g)
  else
    let (shuffled, source) := shuffleFrom ⟨g, 0, 1⟩ 0 items.length items.toArray
    (shuffled.toList, source.generator)

end ChainLab
