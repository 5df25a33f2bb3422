import TriCore.Word

/-!
# Encoding formats

A format says where the operands of an instruction lie in its word. Formats carry the names of the
architecture manual: `sbr` is the short format of a branch on a register, `rlc` the long format with
a register and a sixteen-bit constant. What each format reads is defined in `TriCore.Format.Layout`.

## Main definitions

* `Format`, `Format.width` : the formats and the width of their words.
* `Format.name`, `Format.ofName?`, `Format.all` : the name under which a format is listed, its
  inverse, and the formats in order.
-/

namespace TriCore

/-- An encoding format. -/
inductive Format
  -- The short formats.
  | sb | sbr | sc | sr | src | srr | slr | slro | sro | srrs | sbc | sbrn | ssr | ssro
  -- The long formats.
  | abs | absb | b | bo | bol | rc | rcpw | rlc | rr | rr2 | rrpw | sys | rrr2 | rrr1 | bit | rr1
  | rcr | rrrw | rcrr | rrrr | brr | brc | rrr | rcrw | brn
deriving DecidableEq

namespace Format

/-- The name under which a format is listed. -/
def name : Format → String
  | sb => "Sb" | sbr => "Sbr" | sc => "Sc" | sr => "Sr" | src => "Src" | srr => "Srr"
  | slr => "Slr" | slro => "Slro" | sro => "Sro" | srrs => "Srrs" | sbc => "Sbc" | sbrn => "Sbrn"
  | ssr => "Ssr" | ssro => "Ssro" | abs => "Abs" | absb => "Absb" | b => "B" | bo => "Bo"
  | bol => "Bol" | rc => "Rc" | rcpw => "Rcpw" | rlc => "Rlc" | rr => "Rr" | rr2 => "Rr2"
  | rrpw => "Rrpw" | sys => "Sys" | rrr2 => "Rrr2" | rrr1 => "Rrr1" | bit => "Bit" | rr1 => "Rr1"
  | rcr => "Rcr" | rrrw => "Rrrw" | rcrr => "Rcrr" | rrrr => "Rrrr" | brr => "Brr" | brc => "Brc"
  | rrr => "Rrr" | rcrw => "Rcrw" | brn => "Brn"

/-- The formats in order. -/
def all : List Format :=
  [sb, sbr, sc, sr, src, srr, slr, slro, sro, srrs, sbc, sbrn, ssr, ssro, abs, absb, b, bo, bol,
   rc, rcpw, rlc, rr, rr2, rrpw, sys, rrr2, rrr1, bit, rr1, rcr, rrrw, rcrr, rrrr, brr, brc, rrr,
   rcrw, brn]

/-- The format with the given name. -/
def ofName? (name : String) : Option Format := all.find? (·.name == name)

/-- The width of the words that a format describes. -/
def width : Format → Width
  | sb | sbr | sc | sr | src | srr | slr | slro | sro | srrs | sbc | sbrn | ssr | ssro => .short
  | _ => .long

end Format

end TriCore
