/-!
# Opcodes

An opcode is one operation in one encoding format, so that the same operation on other kinds of
operand is another opcode. Names put the mnemonic before the format: `ldWBso` is the word load of
the base-register format with a short offset, and `jeqSbr` is the branch on equality of the format
for short branches on a register.

## Main definitions

* `Opcode` : the operations that can be recognised.
* `Opcode.name`, `Opcode.ofName?`, `Opcode.all`, `Opcode.index` : the name under which an opcode is
  listed, its inverse, and the opcodes in order.
-/

namespace TriCore

/-- An operation in one encoding format. -/
inductive Opcode
  -- Short branches with an eight-bit displacement.
  | jSb | callSb | jzSb | jnzSb
  -- Short branches on a register.
  | jeqSbr | jneSbr | jzSbr | jnzSbr
  -- Short forms with an eight-bit constant.
  | andSc | orSc | movSc | bisrSc
  -- Short forms on one register.
  | notSr | satBSr | satBuSr | satHSr | satHuSr | rsubSr
  -- Short forms with a register and a constant.
  | movSrc | addSrc | movASrc | addASrc | shSrc
  -- Short forms with two registers.
  | movSrr | addSrr | subSrr | andSrr | orSrr | xorSrr | movASrr | movAaSrr | movDSrr | addASrr
  -- Short loads.
  | ldWSlr | ldBuSlr | ldWSlro | ldBuSlro | ldWSro | ldBuSro
  -- Short scaled addition to an address.
  | addscASrrs
  -- Short branches on a comparison with a constant.
  | jeqSbc | jneSbc | jeqSbc2 | jneSbc2
  -- Short branches on one bit.
  | jzTSbrn | jnzTSbrn
  -- Short stores.
  | stWSsr | stBSsr | stASsr | stWSsro | stBSsro
  -- Loads, stores and address computation at an absolute address.
  | ldWAbs | ldDAbs | ldAAbs | ldDaAbs | ldBAbs | ldBuAbs | ldHAbs | ldHuAbs | stWAbs | stDAbs
  | stAAbs | stDaAbs | stBAbs | stHAbs | leaAbs
  -- Stores of one bit at an absolute address.
  | stTAbsb
  -- Branches with a twenty-four-bit displacement.
  | jB | callB | jaB | jlB | callaB | jlaB
  -- Loads with post-increment, pre-increment and short offset.
  | ldBPos | ldWPos | ldDPos | ldAPos | ldDaPos | ldBPre | ldWPre | ldDPre | ldAPre | ldDaPre
  | ldBBso | ldBuBso | ldHBso | ldHuBso | ldWBso | ldDBso | ldABso | ldDaBso
  -- Loads with bit-reversed and circular addressing, and all stores from a base register.
  | ldBBrev | ldWBrev | ldDBrev | ldABrev | ldDaBrev | ldBCirc | ldWCirc | ldDCirc | ldACirc
  | ldDaCirc | stBPos | stWPos | stDPos | stAPos | stDaPos | stBPre | stWPre | stDPre | stAPre
  | stDaPre | stBBso | stHBso | stWBso | stDBso | stABso | stDaBso | stBBrev | stWBrev | stDBrev
  | stABrev | stDaBrev | stBCirc | stWCirc | stDCirc | stACirc | stDaCirc | leaBo
  -- Loads, stores and address computation with a long offset.
  | ldWBol | ldABol | leaBol | stWBol
  -- A register and a nine-bit constant.
  | addRc | rsubRc | eqRc | andRc | orRc | xorRc | andEqRc | andNeRc | andLtRc | andLtURc
  | andGeRc | andGeURc | orEqRc | orNeRc | orLtRc | orLtURc | orGeRc | orGeURc | xorEqRc | xorNeRc
  | xorLtRc | xorLtURc | xorGeRc | xorGeURc
  -- Bit-field insertion of a constant at a fixed position.
  | insertRcpw | imaskRcpw
  -- A register and a sixteen-bit constant.
  | addiRlc | addihRlc | addihARlc | movRlc | movURlc | movhRlc | movhARlc | mtcrRlc | mfcrRlc
  -- Two registers.
  | addRr | subRr | eqRr | movRr | andRr | orRr | xorRr | movAaRr | addARr | subARr | movDRr
  | movARr | andEqRr | andNeRr | andLtRr | andLtURr | andGeRr | andGeURr | orEqRr | orNeRr
  | orLtRr | orLtURr | orGeRr | orGeURr | xorEqRr | xorNeRr | xorLtRr | xorLtURr | xorGeRr
  | xorGeURr
  -- Products of two registers.
  | mulRr2 | mulURr2
  -- Bit fields at a fixed position.
  | insertRrpw | extrRrpw | extrURrpw | dextrRrpw
  -- System control.
  | restoreSys | disableSys
  -- Multiplication with accumulation.
  | maddRrr2 | msubRrr2 | maddQRrr1 | msubQRrr1
  -- Operations on two bits.
  | andAndTBit | andTBit | orTBit | nandTBit
  -- Fractional products.
  | mulQRr1 | mulHRr1
  -- Three operands of which one is a constant.
  | maddRcr | msubRcr | caddRcr | selRcr
  -- Bit fields at a computed position.
  | insertRrrw | extrRrrw | extrURrrw | insertRcrr | extrRrrr | extrURrrr | dextrRrrr
  -- Branches on a comparison of two registers.
  | jeqBrr | jneBrr | jltBrr | jltUBrr | jgeBrr | jgeUBrr
  -- Branches on a comparison with a constant.
  | jeqBrc | jneBrc | jltBrc | jltUBrc | jgeBrc | jgeUBrc
  -- Conditional addition and selection.
  | caddRrr | selRrr | selnRrr
  -- Bit-field insertion of a constant at a computed position.
  | insertRcrw
  -- Branches on one bit.
  | jzTBrn | jnzTBrn
deriving DecidableEq

namespace Opcode

/-- The name under which an opcode is listed. -/
def name : Opcode → String
  | jSb => "JSb" | callSb => "CallSb" | jzSb => "JzSb" | jnzSb => "JnzSb" | jeqSbr => "JeqSbr"
  | jneSbr => "JneSbr" | jzSbr => "JzSbr" | jnzSbr => "JnzSbr" | andSc => "AndSc" | orSc => "OrSc"
  | movSc => "MovSc" | bisrSc => "BisrSc" | notSr => "NotSr" | satBSr => "SatBSr"
  | satBuSr => "SatBuSr" | satHSr => "SatHSr" | satHuSr => "SatHuSr" | rsubSr => "RsubSr"
  | movSrc => "MovSrc" | addSrc => "AddSrc" | movASrc => "MovASrc" | addASrc => "AddASrc"
  | shSrc => "ShSrc" | movSrr => "MovSrr" | addSrr => "AddSrr" | subSrr => "SubSrr"
  | andSrr => "AndSrr" | orSrr => "OrSrr" | xorSrr => "XorSrr" | movASrr => "MovASrr"
  | movAaSrr => "MovAaSrr" | movDSrr => "MovDSrr" | addASrr => "AddASrr" | ldWSlr => "LdWSlr"
  | ldBuSlr => "LdBuSlr" | ldWSlro => "LdWSlro" | ldBuSlro => "LdBuSlro" | ldWSro => "LdWSro"
  | ldBuSro => "LdBuSro" | addscASrrs => "AddscASrrs" | jeqSbc => "JeqSbc" | jneSbc => "JneSbc"
  | jeqSbc2 => "JeqSbc2" | jneSbc2 => "JneSbc2" | jzTSbrn => "JzTSbrn" | jnzTSbrn => "JnzTSbrn"
  | stWSsr => "StWSsr" | stBSsr => "StBSsr" | stASsr => "StASsr" | stWSsro => "StWSsro"
  | stBSsro => "StBSsro" | ldWAbs => "LdWAbs" | ldDAbs => "LdDAbs" | ldAAbs => "LdAAbs"
  | ldDaAbs => "LdDaAbs" | ldBAbs => "LdBAbs" | ldBuAbs => "LdBuAbs" | ldHAbs => "LdHAbs"
  | ldHuAbs => "LdHuAbs" | stWAbs => "StWAbs" | stDAbs => "StDAbs" | stAAbs => "StAAbs"
  | stDaAbs => "StDaAbs" | stBAbs => "StBAbs" | stHAbs => "StHAbs" | leaAbs => "LeaAbs"
  | stTAbsb => "StTAbsb" | jB => "JB" | callB => "CallB" | jaB => "JaB" | jlB => "JlB"
  | callaB => "CallaB" | jlaB => "JlaB" | ldBPos => "LdBPos" | ldWPos => "LdWPos"
  | ldDPos => "LdDPos" | ldAPos => "LdAPos" | ldDaPos => "LdDaPos" | ldBPre => "LdBPre"
  | ldWPre => "LdWPre" | ldDPre => "LdDPre" | ldAPre => "LdAPre" | ldDaPre => "LdDaPre"
  | ldBBso => "LdBBso" | ldBuBso => "LdBuBso" | ldHBso => "LdHBso" | ldHuBso => "LdHuBso"
  | ldWBso => "LdWBso" | ldDBso => "LdDBso" | ldABso => "LdABso" | ldDaBso => "LdDaBso"
  | ldBBrev => "LdBBrev" | ldWBrev => "LdWBrev" | ldDBrev => "LdDBrev" | ldABrev => "LdABrev"
  | ldDaBrev => "LdDaBrev" | ldBCirc => "LdBCirc" | ldWCirc => "LdWCirc" | ldDCirc => "LdDCirc"
  | ldACirc => "LdACirc" | ldDaCirc => "LdDaCirc" | stBPos => "StBPos" | stWPos => "StWPos"
  | stDPos => "StDPos" | stAPos => "StAPos" | stDaPos => "StDaPos" | stBPre => "StBPre"
  | stWPre => "StWPre" | stDPre => "StDPre" | stAPre => "StAPre" | stDaPre => "StDaPre"
  | stBBso => "StBBso" | stHBso => "StHBso" | stWBso => "StWBso" | stDBso => "StDBso"
  | stABso => "StABso" | stDaBso => "StDaBso" | stBBrev => "StBBrev" | stWBrev => "StWBrev"
  | stDBrev => "StDBrev" | stABrev => "StABrev" | stDaBrev => "StDaBrev" | stBCirc => "StBCirc"
  | stWCirc => "StWCirc" | stDCirc => "StDCirc" | stACirc => "StACirc" | stDaCirc => "StDaCirc"
  | leaBo => "LeaBo" | ldWBol => "LdWBol" | ldABol => "LdABol" | leaBol => "LeaBol"
  | stWBol => "StWBol" | addRc => "AddRc" | rsubRc => "RsubRc" | eqRc => "EqRc" | andRc => "AndRc"
  | orRc => "OrRc" | xorRc => "XorRc" | andEqRc => "AndEqRc" | andNeRc => "AndNeRc"
  | andLtRc => "AndLtRc" | andLtURc => "AndLtURc" | andGeRc => "AndGeRc" | andGeURc => "AndGeURc"
  | orEqRc => "OrEqRc" | orNeRc => "OrNeRc" | orLtRc => "OrLtRc" | orLtURc => "OrLtURc"
  | orGeRc => "OrGeRc" | orGeURc => "OrGeURc" | xorEqRc => "XorEqRc" | xorNeRc => "XorNeRc"
  | xorLtRc => "XorLtRc" | xorLtURc => "XorLtURc" | xorGeRc => "XorGeRc" | xorGeURc => "XorGeURc"
  | insertRcpw => "InsertRcpw" | imaskRcpw => "ImaskRcpw" | addiRlc => "AddiRlc"
  | addihRlc => "AddihRlc" | addihARlc => "AddihARlc" | movRlc => "MovRlc" | movURlc => "MovURlc"
  | movhRlc => "MovhRlc" | movhARlc => "MovhARlc" | mtcrRlc => "MtcrRlc" | mfcrRlc => "MfcrRlc"
  | addRr => "AddRr" | subRr => "SubRr" | eqRr => "EqRr" | movRr => "MovRr" | andRr => "AndRr"
  | orRr => "OrRr" | xorRr => "XorRr" | movAaRr => "MovAaRr" | addARr => "AddARr"
  | subARr => "SubARr" | movDRr => "MovDRr" | movARr => "MovARr" | andEqRr => "AndEqRr"
  | andNeRr => "AndNeRr" | andLtRr => "AndLtRr" | andLtURr => "AndLtURr" | andGeRr => "AndGeRr"
  | andGeURr => "AndGeURr" | orEqRr => "OrEqRr" | orNeRr => "OrNeRr" | orLtRr => "OrLtRr"
  | orLtURr => "OrLtURr" | orGeRr => "OrGeRr" | orGeURr => "OrGeURr" | xorEqRr => "XorEqRr"
  | xorNeRr => "XorNeRr" | xorLtRr => "XorLtRr" | xorLtURr => "XorLtURr" | xorGeRr => "XorGeRr"
  | xorGeURr => "XorGeURr" | mulRr2 => "MulRr2" | mulURr2 => "MulURr2"
  | insertRrpw => "InsertRrpw" | extrRrpw => "ExtrRrpw" | extrURrpw => "ExtrURrpw"
  | dextrRrpw => "DextrRrpw" | restoreSys => "RestoreSys" | disableSys => "DisableSys"
  | maddRrr2 => "MaddRrr2" | msubRrr2 => "MsubRrr2" | maddQRrr1 => "MaddQRrr1"
  | msubQRrr1 => "MsubQRrr1" | andAndTBit => "AndAndTBit" | andTBit => "AndTBit"
  | orTBit => "OrTBit" | nandTBit => "NandTBit" | mulQRr1 => "MulQRr1" | mulHRr1 => "MulHRr1"
  | maddRcr => "MaddRcr" | msubRcr => "MsubRcr" | caddRcr => "CaddRcr" | selRcr => "SelRcr"
  | insertRrrw => "InsertRrrw" | extrRrrw => "ExtrRrrw" | extrURrrw => "ExtrURrrw"
  | insertRcrr => "InsertRcrr" | extrRrrr => "ExtrRrrr" | extrURrrr => "ExtrURrrr"
  | dextrRrrr => "DextrRrrr" | jeqBrr => "JeqBrr" | jneBrr => "JneBrr" | jltBrr => "JltBrr"
  | jltUBrr => "JltUBrr" | jgeBrr => "JgeBrr" | jgeUBrr => "JgeUBrr" | jeqBrc => "JeqBrc"
  | jneBrc => "JneBrc" | jltBrc => "JltBrc" | jltUBrc => "JltUBrc" | jgeBrc => "JgeBrc"
  | jgeUBrc => "JgeUBrc" | caddRrr => "CaddRrr" | selRrr => "SelRrr" | selnRrr => "SelnRrr"
  | insertRcrw => "InsertRcrw" | jzTBrn => "JzTBrn" | jnzTBrn => "JnzTBrn"

/-- The opcodes in order. -/
def all : List Opcode :=
  [jSb, callSb, jzSb, jnzSb, jeqSbr, jneSbr, jzSbr, jnzSbr, andSc, orSc, movSc, bisrSc, notSr,
   satBSr, satBuSr, satHSr, satHuSr, rsubSr, movSrc, addSrc, movASrc, addASrc, shSrc, movSrr,
   addSrr, subSrr, andSrr, orSrr, xorSrr, movASrr, movAaSrr, movDSrr, addASrr, ldWSlr, ldBuSlr,
   ldWSlro, ldBuSlro, ldWSro, ldBuSro, addscASrrs, jeqSbc, jneSbc, jeqSbc2, jneSbc2, jzTSbrn,
   jnzTSbrn, stWSsr, stBSsr, stASsr, stWSsro, stBSsro, ldWAbs, ldDAbs, ldAAbs, ldDaAbs, ldBAbs,
   ldBuAbs, ldHAbs, ldHuAbs, stWAbs, stDAbs, stAAbs, stDaAbs, stBAbs, stHAbs, leaAbs, stTAbsb, jB,
   callB, jaB, jlB, callaB, jlaB, ldBPos, ldWPos, ldDPos, ldAPos, ldDaPos, ldBPre, ldWPre, ldDPre,
   ldAPre, ldDaPre, ldBBso, ldBuBso, ldHBso, ldHuBso, ldWBso, ldDBso, ldABso, ldDaBso, ldBBrev,
   ldWBrev, ldDBrev, ldABrev, ldDaBrev, ldBCirc, ldWCirc, ldDCirc, ldACirc, ldDaCirc, stBPos,
   stWPos, stDPos, stAPos, stDaPos, stBPre, stWPre, stDPre, stAPre, stDaPre, stBBso, stHBso,
   stWBso, stDBso, stABso, stDaBso, stBBrev, stWBrev, stDBrev, stABrev, stDaBrev, stBCirc,
   stWCirc, stDCirc, stACirc, stDaCirc, leaBo, ldWBol, ldABol, leaBol, stWBol, addRc, rsubRc,
   eqRc, andRc, orRc, xorRc, andEqRc, andNeRc, andLtRc, andLtURc, andGeRc, andGeURc, orEqRc,
   orNeRc, orLtRc, orLtURc, orGeRc, orGeURc, xorEqRc, xorNeRc, xorLtRc, xorLtURc, xorGeRc,
   xorGeURc, insertRcpw, imaskRcpw, addiRlc, addihRlc, addihARlc, movRlc, movURlc, movhRlc,
   movhARlc, mtcrRlc, mfcrRlc, addRr, subRr, eqRr, movRr, andRr, orRr, xorRr, movAaRr, addARr,
   subARr, movDRr, movARr, andEqRr, andNeRr, andLtRr, andLtURr, andGeRr, andGeURr, orEqRr, orNeRr,
   orLtRr, orLtURr, orGeRr, orGeURr, xorEqRr, xorNeRr, xorLtRr, xorLtURr, xorGeRr, xorGeURr,
   mulRr2, mulURr2, insertRrpw, extrRrpw, extrURrpw, dextrRrpw, restoreSys, disableSys, maddRrr2,
   msubRrr2, maddQRrr1, msubQRrr1, andAndTBit, andTBit, orTBit, nandTBit, mulQRr1, mulHRr1,
   maddRcr, msubRcr, caddRcr, selRcr, insertRrrw, extrRrrw, extrURrrw, insertRcrr, extrRrrr,
   extrURrrr, dextrRrrr, jeqBrr, jneBrr, jltBrr, jltUBrr, jgeBrr, jgeUBrr, jeqBrc, jneBrc, jltBrc,
   jltUBrc, jgeBrc, jgeUBrc, caddRrr, selRrr, selnRrr, insertRcrw, jzTBrn, jnzTBrn]

/-- The position of an opcode among all of them. -/
def index (o : Opcode) : Nat := o.ctorIdx

/-- The opcode with the given name. -/
def ofName? (name : String) : Option Opcode := all.find? (·.name == name)

theorem getElem?_all_index (o : Opcode) : all[o.index]? = some o := by cases o <;> rfl

theorem mem_all (o : Opcode) : o ∈ all := List.mem_of_getElem? o.getElem?_all_index

/-- No two opcodes have the same position. -/
theorem index_injective : Function.Injective index := fun o p h =>
  Option.some.inj (o.getElem?_all_index.symm.trans ((congrArg (all[·]?) h).trans
    p.getElem?_all_index))

end Opcode

end TriCore
