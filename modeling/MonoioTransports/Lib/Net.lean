/-
IP literals, as Rust's standard library reads them (`core::net`).

# The reader

A `Reader` takes its value off the front of the input, and leaves the
input alone when there is none. `parse` of an address is its reader on
the whole input.

- A number has a limit on its digits; in an IPv4 literal it has no
  leading zero.
- An IPv6 literal is up to eight groups, one run of which may be `::`;
  the last two may be written as an IPv4 literal.

# What is used of it

Nothing that begins with a bracket is a literal (`parse_bracket`), no
literal is one of both kinds (`parse_ipv6_of_ipv4`), and every IPv4
address is read back from the way it is displayed (`parse_display`).
-/
import Mathlib.Data.List.Basic

namespace Lib.Net

-- =============================================================== addresses

/-- The four octets, in the order they are written. -/
structure Ipv4Addr where
  a : UInt8
  b : UInt8
  c : UInt8
  d : UInt8
  deriving DecidableEq, Repr

/-- The eight groups of sixteen bits. -/
structure Ipv6Addr where
  segments : Vector UInt16 8
  deriving DecidableEq, Repr

/-- The address with these groups; one that is missing is zero. -/
def Ipv6Addr.ofSegments (groups : List UInt16) : Ipv6Addr where
  segments := Vector.ofFn fun i => groups.getD i 0

/-- An address of either kind. -/
inductive IpAddr
  | v4 (ip : Ipv4Addr)
  | v6 (ip : Ipv6Addr)
  deriving DecidableEq, Repr

/-- An address and a port; the flow information and the scope of an IPv6
one are zero. -/
structure SocketAddr where
  ip : IpAddr
  port : UInt16
  deriving DecidableEq, Repr

-- ================================================================= readers

/-- A parser: what it read, and the text it left. -/
abbrev Reader (α : Type) : Type := List Char → Option (α × List Char)

/-- `char::to_digit`. -/
def toDigit (radix : Nat) (c : Char) : Option Nat :=
  let n := c.toNat
  let digit :=
    if 48 ≤ n ∧ n ≤ 57 then some (n - 48)
    else if 97 ≤ n ∧ n ≤ 122 then some (n - 87)
    else if 65 ≤ n ∧ n ≤ 90 then some (n - 55)
    else none
  digit.filter fun digit => digit < radix

/-- Read digits: the number, how many there were, and the rest. Too many
are an error. -/
def readDigits (radix maxDigits result count : Nat) :
    List Char → Option (Nat × Nat × List Char)
  | [] => some (result, count, [])
  | c :: rest =>
      match toDigit radix c with
      | none => some (result, count, c :: rest)
      | some digit =>
          if count + 1 > maxDigits then none
          else
            readDigits radix maxDigits (result * radix + digit) (count + 1)
              rest

/-- `read_number`, for a type of `size` values. -/
def readNumber (radix maxDigits : Nat) (allowZeroPrefix : Bool)
    (size : Nat) : Reader Nat := fun input =>
  match readDigits radix maxDigits 0 0 input with
  | some (result, count, rest) =>
      if count = 0 then none
      else if !allowZeroPrefix && input.head? = some '0' && count > 1 then
        none
      else if result < size then some (result, rest)
      else none
  | none => none

/-- `read_given_char`. -/
def readGivenChar (target : Char) : Reader Unit
  | [] => none
  | c :: rest => if c = target then some ((), rest) else none

/-- `read_separator`: all but the first of a sequence have one. -/
def readSeparator {α : Type} (sep : Char) (index : Nat)
    (inner : Reader α) : Reader α := fun input =>
  if index > 0 then
    match readGivenChar sep input with
    | some (_, rest) => inner rest
    | none => none
  else inner input

/-- One number of an IPv4 literal. -/
def readOctet : Reader UInt8 := fun input =>
  (readNumber 10 3 false 256 input).map fun r => (UInt8.ofNat r.1, r.2)

/-- `read_ipv4_addr`. -/
def readIpv4Addr : Reader Ipv4Addr := fun input => do
  let (a, rest) ← readSeparator '.' 0 readOctet input
  let (b, rest) ← readSeparator '.' 1 readOctet rest
  let (c, rest) ← readSeparator '.' 2 readOctet rest
  let (d, rest) ← readSeparator '.' 3 readOctet rest
  return (⟨a, b, c, d⟩, rest)

/-- One group of an IPv6 literal. -/
def readGroup : Reader UInt16 := fun input =>
  (readNumber 16 4 true 65536 input).map fun r => (UInt16.ofNat r.1, r.2)

/-- Two octets, the first in front. -/
def group (high low : UInt8) : UInt16 :=
  UInt16.ofNat (high.toNat * 256 + low.toNat)

/-- `read_groups`, with so many groups still to read: the groups, and
whether an IPv4 literal ended them. It takes the place of two. -/
def readGroups (index : Nat) :
    Nat → List Char → List UInt16 × Bool × List Char
  | 0, input => ([], false, input)
  | remaining + 1, input =>
      let ipv4 :=
        if remaining > 0 then readSeparator ':' index readIpv4Addr input
        else none
      match ipv4 with
      | some (v4, rest) =>
          ([group v4.a v4.b, group v4.c v4.d], true, rest)
      | none =>
          match readSeparator ':' index readGroup input with
          | some (g, rest) =>
              let r := readGroups (index + 1) remaining rest
              (g :: r.1, r.2)
          | none => ([], false, input)

/-- `read_ipv6_addr`. -/
def readIpv6Addr : Reader Ipv6Addr := fun input =>
  let (head, headIpv4, rest) := readGroups 0 8 input
  if head.length = 8 then some (.ofSegments head, rest)
  -- an IPv4 literal is not allowed before `::`
  else if headIpv4 then none
  else do
    let (_, rest) ← readGivenChar ':' rest
    let (_, rest) ← readGivenChar ':' rest
    let (tail, _, rest) := readGroups 0 (8 - (head.length + 1)) rest
    let zeros := List.replicate (8 - head.length - tail.length) 0
    return (.ofSegments (head ++ zeros ++ tail), rest)

-- =============================================================== literals

/-- `parse_with`: nothing may be left. -/
def parseWith {α : Type} (inner : Reader α) (input : List Char) :
    Option α :=
  match inner input with
  | some (value, []) => some value
  | _ => none

/-- `Ipv4Addr::from_str`. -/
def Ipv4Addr.parse (input : List Char) : Option Ipv4Addr :=
  if input.length > 15 then none else parseWith readIpv4Addr input

/-- `Ipv6Addr::from_str`. -/
def Ipv6Addr.parse (input : List Char) : Option Ipv6Addr :=
  parseWith readIpv6Addr input

-- ============================================================== brackets

/-- A number does not begin with a bracket. -/
theorem readNumber_bracket (radix maxDigits size : Nat)
    (allowZeroPrefix : Bool) (rest : List Char) :
    readNumber radix maxDigits allowZeroPrefix size ('[' :: rest)
      = none := by
  have hdigit : toDigit radix '[' = none := rfl
  simp only [readNumber, readDigits, hdigit, if_true]

theorem readIpv4Addr_bracket (rest : List Char) :
    readIpv4Addr ('[' :: rest) = none := by
  have hoctet : readSeparator '.' 0 readOctet ('[' :: rest) = none := by
    simp only [readSeparator, Nat.lt_irrefl, gt_iff_lt, if_false,
      readOctet, readNumber_bracket, Option.map_none]
  rw [readIpv4Addr, hoctet]
  rfl

theorem readIpv6Addr_bracket (rest : List Char) :
    readIpv6Addr ('[' :: rest) = none := by
  have hipv4 : readSeparator ':' 0 readIpv4Addr ('[' :: rest) = none := by
    simp only [readSeparator, Nat.lt_irrefl, gt_iff_lt, if_false,
      readIpv4Addr_bracket]
  have hgroup : readSeparator ':' 0 readGroup ('[' :: rest) = none := by
    simp only [readSeparator, Nat.lt_irrefl, gt_iff_lt, if_false,
      readGroup, readNumber_bracket, Option.map_none]
  have hgroups : readGroups 0 8 ('[' :: rest)
      = ([], false, '[' :: rest) := by
    simp only [readGroups, hipv4, hgroup, ite_self]
  rw [readIpv6Addr, hgroups]
  rfl

/-- What begins with a bracket is no literal. -/
theorem parse_bracket (rest : List Char) :
    Ipv4Addr.parse ('[' :: rest) = none
      ∧ Ipv6Addr.parse ('[' :: rest) = none := by
  refine ⟨?_, ?_⟩
  · unfold Ipv4Addr.parse parseWith
    rw [readIpv4Addr_bracket]
    exact ite_self _
  · unfold Ipv6Addr.parse parseWith
    rw [readIpv6Addr_bracket]

/-- An IPv4 literal is no IPv6 literal: there it would stand in front,
with nothing behind it. -/
theorem parse_ipv6_of_ipv4 {input : List Char} {ip : Ipv4Addr}
    (h : Ipv4Addr.parse input = some ip) : Ipv6Addr.parse input = none := by
  have hread : readIpv4Addr input = some (ip, []) := by
    unfold Ipv4Addr.parse parseWith at h
    split at h
    next => cases h
    next =>
      split at h
      next value hv =>
        cases h
        exact hv
      next => cases h
  have hfront : readSeparator ':' 0 readIpv4Addr input
      = some (ip, []) := hread
  have hgroups : readGroups 0 8 input
      = ([group ip.a ip.b, group ip.c ip.d], true, []) := by
    simp only [readGroups, hfront, Nat.zero_lt_succ, gt_iff_lt, if_true]
  unfold Ipv6Addr.parse parseWith readIpv6Addr
  rw [hgroups]
  rfl

-- ============================================================= round trip

/-- The character of a decimal digit. -/
def digitChar (digit : Nat) : Char := Char.ofNat (48 + digit)

/-- An octet as `Display` writes it. -/
def displayOctet (n : Nat) : List Char :=
  if n < 10 then [digitChar n]
  else if n < 100 then [digitChar (n / 10), digitChar (n % 10)]
  else [digitChar (n / 100), digitChar (n / 10 % 10), digitChar (n % 10)]

/-- An address as `Display` writes it. -/
def Ipv4Addr.display (ip : Ipv4Addr) : List Char :=
  displayOctet ip.a.toNat ++ '.' :: (displayOctet ip.b.toNat
    ++ '.' :: (displayOctet ip.c.toNat
      ++ '.' :: displayOctet ip.d.toNat))

theorem toDigit_digitChar : ∀ digit < 10,
    toDigit 10 (digitChar digit) = some digit := by
  decide

theorem digitChar_ne_zero : ∀ digit < 10, digit ≠ 0 →
    digitChar digit ≠ '0' := by
  decide

/-- A rest that does not begin with a digit. -/
def NoDigit (rest : List Char) : Prop :=
  ∀ c ∈ rest.head?, toDigit 10 c = none

/-- Reading stops there. -/
theorem readDigits_noDigit {rest : List Char} (h : NoDigit rest)
    (maxDigits result count : Nat) :
    readDigits 10 maxDigits result count rest
      = some (result, count, rest) := by
  cases rest with
  | nil => rfl
  | cons c rest => rw [readDigits, h c rfl]

/-- A digit is read, unless there were enough. -/
theorem readDigits_digit {digit : Nat} (hd : digit < 10)
    {maxDigits count : Nat} (hc : count < maxDigits) (result : Nat)
    (rest : List Char) :
    readDigits 10 maxDigits result count (digitChar digit :: rest)
      = readDigits 10 maxDigits (result * 10 + digit) (count + 1)
        rest := by
  rw [readDigits, toDigit_digitChar digit hd]
  exact if_neg (Nat.not_lt.mpr hc)

/-- Digits that are read make an octet, unless they begin with a zero
that is not the only one. -/
theorem readOctet_eq {input rest : List Char} {n : Nat} (count : Nat)
    (h : readDigits 10 3 0 0 input = some (n, count + 1, rest))
    (hzero : count = 0 ∨ input.head? ≠ some '0') (hn : n < 256) :
    readOctet input = some (UInt8.ofNat n, rest) := by
  have hguard : (decide (input.head? = some '0') && decide (count + 1 > 1))
      = false := by
    rcases hzero with hcount | hhead
    · simp [hcount]
    · simp [hhead]
  simp only [readOctet, readNumber, h, Nat.succ_ne_zero, if_false,
    Bool.not_false, Bool.true_and, hguard, Bool.false_eq_true, if_pos hn,
    Option.map_some]

/-- An octet is read back. -/
theorem readOctet_display {n : Nat} (hn : n < 256) {rest : List Char}
    (h : NoDigit rest) :
    readOctet (displayOctet n ++ rest) = some (UInt8.ofNat n, rest) := by
  have hhead : ∀ {digit : Nat} {tail : List Char}, digit < 10 →
      digit ≠ 0 → (digitChar digit :: tail).head? ≠ some '0' := by
    intro digit tail hlt hne heq
    exact digitChar_ne_zero digit hlt hne (Option.some.inj heq)
  unfold displayOctet
  split
  next h10 =>
    refine readOctet_eq 0 ?_ (Or.inl rfl) hn
    rw [List.cons_append, List.nil_append,
      readDigits_digit h10 (by omega), readDigits_noDigit h]
    simp
  next h10 =>
    split
    next h100 =>
      have hd₁ : n / 10 < 10 := by omega
      have hd₂ : n % 10 < 10 := by omega
      have hsum : (0 * 10 + n / 10) * 10 + n % 10 = n := by omega
      refine readOctet_eq 1 ?_ (Or.inr ?_) hn
      · rw [List.cons_append, List.cons_append, List.nil_append,
          readDigits_digit hd₁ (by omega),
          readDigits_digit hd₂ (by omega), readDigits_noDigit h, hsum]
      · exact hhead hd₁ (by omega)
    next h100 =>
      have hd₁ : n / 100 < 10 := by omega
      have hd₂ : n / 10 % 10 < 10 := by omega
      have hd₃ : n % 10 < 10 := by omega
      have hsum : ((0 * 10 + n / 100) * 10 + n / 10 % 10) * 10 + n % 10
          = n := by omega
      refine readOctet_eq 2 ?_ (Or.inr ?_) hn
      · rw [List.cons_append, List.cons_append, List.cons_append,
          List.nil_append, readDigits_digit hd₁ (by omega),
          readDigits_digit hd₂ (by omega),
          readDigits_digit hd₃ (by omega), readDigits_noDigit h, hsum]
      · exact hhead hd₁ (by omega)

theorem noDigit_nil : NoDigit [] := by
  intro c hc
  cases hc

theorem noDigit_dot (rest : List Char) : NoDigit ('.' :: rest) := by
  intro c hc
  cases hc
  rfl

theorem length_displayOctet (n : Nat) : (displayOctet n).length ≤ 3 := by
  unfold displayOctet
  split
  next => exact Nat.le_add_left 1 2
  next =>
    split
    next => exact Nat.le_succ 2
    next => exact Nat.le_refl 3

/-- An octet that is displayed is read back, after its separator. -/
theorem readSeparator_display {index : Nat} (hi : 0 < index) (x : UInt8)
    {rest : List Char} (h : NoDigit rest) :
    readSeparator '.' index readOctet
      ('.' :: (displayOctet x.toNat ++ rest)) = some (x, rest) := by
  simp only [readSeparator, gt_iff_lt, hi, if_true, readGivenChar]
  rw [readOctet_display x.toNat_lt h, UInt8.ofNat_toNat]

/-- Every address is read back from the way it is displayed. -/
theorem parse_display (ip : Ipv4Addr) :
    Ipv4Addr.parse ip.display = some ip := by
  have hlen : ¬ ip.display.length > 15 := by
    have ha := length_displayOctet ip.a.toNat
    have hb := length_displayOctet ip.b.toNat
    have hc := length_displayOctet ip.c.toNat
    have hd := length_displayOctet ip.d.toNat
    simp only [Ipv4Addr.display, List.length_append, List.length_cons]
    omega
  have hlast := readSeparator_display (show 0 < 3 by decide) ip.d
    noDigit_nil
  rw [List.append_nil] at hlast
  have hread : readIpv4Addr ip.display = some (ip, []) := by
    simp only [readIpv4Addr, Ipv4Addr.display]
    rw [readSeparator, if_neg (by decide),
      readOctet_display ip.a.toNat_lt (noDigit_dot _), UInt8.ofNat_toNat]
    simp only [Option.bind_eq_bind, Option.bind_some]
    rw [readSeparator_display (by decide) ip.b (noDigit_dot _)]
    simp only [Option.bind_some]
    rw [readSeparator_display (by decide) ip.c (noDigit_dot _)]
    simp only [Option.bind_some]
    rw [hlast]
    rfl
  rw [Ipv4Addr.parse, if_neg hlen, parseWith, hread]

end Lib.Net
