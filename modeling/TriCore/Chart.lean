import TriCore.Decision.Plan

/-!
# The encoding chart

The low eight bits of a word are its primary opcode. Most values of it select one instruction; the
others select a group of instructions of one format, told apart by a secondary opcode at a place
that depends on the group. Two formats borrow bits of the primary opcode for an operand and are
recognised by fewer bits before all others. This file lists the values for both widths and turns
the lists into plans and tables.

## Main definitions

* `Chart.Entry` : what values of the primary opcode select.
* `Chart.shortEntries`, `Chart.longEntries` : the chart of each width.
* `Chart.shortPlan`, `Chart.longPlan` : the plans that recognise the words of each width.
* `Decision.Table.short`, `Decision.Table.long` : the plans laid out as tables.
-/

namespace TriCore.Chart

open Decision

/-! ### Entries -/

/-- What values of the primary opcode select. -/
inductive Entry
  /-- Each value selects an instruction of the format. -/
  | direct (format : Format) (opcodes : List (BitVec 32 × Opcode))
  /-- The value selects an instruction that needs the features. -/
  | gated (features : Features) (primary : BitVec 32) (format : Format) (opcode : Opcode)
  /-- The value selects a group, whose field `field` selects an instruction of the format. -/
  | secondary (primary : BitVec 32) (field : Field) (format : Format)
      (opcodes : List (BitVec 32 × Opcode))

/-- The plans that commit to each opcode of a list if its value is found. -/
def bindings (format : Format) (opcodes : List (BitVec 32 × Opcode)) :
    List (BitVec 32 × Plan) :=
  opcodes.map fun entry => (entry.1, .commit ⟨entry.2, format⟩)

/-- The values of the primary opcode in an entry, with the plan of each. -/
def Entry.arms : Entry → List (BitVec 32 × Plan)
  | direct format opcodes => bindings format opcodes
  | gated features primary format opcode =>
    [(primary, .gate features (.commit ⟨opcode, format⟩))]
  | secondary primary field format opcodes =>
    [(primary, .select field (bindings format opcodes))]

/-- The primary opcode. -/
def primaryField : Field := ⟨0, 8⟩

/-- The plan that selects an entry by the primary opcode. -/
def byPrimary (entries : List Entry) : Plan :=
  .select primaryField (entries.flatMap Entry.arms)

/-! ### Short words -/

/-- The primary opcodes of short words. -/
def shortEntries : List Entry :=
  [.direct .sb [(0x3C, .jSb), (0x5C, .callSb), (0x6E, .jzSb), (0xEE, .jnzSb)],
   .direct .sbr [(0x3E, .jeqSbr), (0x7E, .jneSbr), (0x76, .jzSbr), (0xF6, .jnzSbr)],
   .direct .sc [(0x16, .andSc), (0x96, .orSc), (0xDA, .movSc), (0xE0, .bisrSc)],
   .secondary 0x46 ⟨12, 4⟩ .sr [(0x0, .notSr)],
   .secondary 0x32 ⟨12, 4⟩ .sr
     [(0x0, .satBSr), (0x1, .satBuSr), (0x2, .satHSr), (0x3, .satHuSr), (0x5, .rsubSr)],
   .direct .src
     [(0x82, .movSrc), (0xC2, .addSrc), (0xA0, .movASrc), (0xB0, .addASrc), (0x06, .shSrc)],
   .direct .srr
     [(0x02, .movSrr), (0x42, .addSrr), (0xA2, .subSrr), (0x26, .andSrr), (0xA6, .orSrr),
      (0xC6, .xorSrr), (0x60, .movASrr), (0x40, .movAaSrr), (0x80, .movDSrr), (0x30, .addASrr)],
   .direct .slr [(0x54, .ldWSlr), (0x14, .ldBuSlr)],
   .direct .slro [(0x48, .ldWSlro), (0x08, .ldBuSlro)],
   .direct .sro [(0x4C, .ldWSro), (0x0C, .ldBuSro)],
   .direct .sbc [(0x1E, .jeqSbc), (0x5E, .jneSbc)],
   .gated .tc161 0x9E .sbc .jeqSbc2,
   .gated .tc161 0xDE .sbc .jneSbc2,
   .direct .sbrn [(0x2E, .jzTSbrn), (0xAE, .jnzTSbrn)],
   .direct .ssr [(0x74, .stWSsr), (0x34, .stBSsr), (0xF4, .stASsr)],
   .direct .ssro [(0x68, .stWSsro), (0x28, .stBSsro)]]

/-- The plan for short words. The format `srrs` keeps an operand in bits `6` and `7`, so that its
opcode has six bits. -/
def shortPlan : Plan :=
  .seq (.test ⟨0, 6⟩ 0x10 (.commit ⟨.addscASrrs, .srrs⟩)) (byPrimary shortEntries)

/-! ### Long words -/

/-- The primary opcodes of long words. -/
def longEntries : List Entry :=
  [.secondary 0x85 ⟨26, 2⟩ .abs [(0, .ldWAbs), (1, .ldDAbs), (2, .ldAAbs), (3, .ldDaAbs)],
   .secondary 0x05 ⟨26, 2⟩ .abs [(0, .ldBAbs), (1, .ldBuAbs), (2, .ldHAbs), (3, .ldHuAbs)],
   .secondary 0xA5 ⟨26, 2⟩ .abs [(0, .stWAbs), (1, .stDAbs), (2, .stAAbs), (3, .stDaAbs)],
   .secondary 0x25 ⟨26, 2⟩ .abs [(0, .stBAbs), (2, .stHAbs)],
   .secondary 0xC5 ⟨26, 2⟩ .abs [(0, .leaAbs)],
   .secondary 0xD5 ⟨26, 2⟩ .absb [(0, .stTAbsb)],
   .direct .b
     [(0x1D, .jB), (0x6D, .callB), (0x9D, .jaB), (0x5D, .jlB), (0xED, .callaB), (0xDD, .jlaB)],
   .secondary 0x09 ⟨22, 6⟩ .bo
     [(0x00, .ldBPos), (0x04, .ldWPos), (0x05, .ldDPos), (0x06, .ldAPos), (0x07, .ldDaPos),
      (0x10, .ldBPre), (0x14, .ldWPre), (0x15, .ldDPre), (0x16, .ldAPre), (0x17, .ldDaPre),
      (0x20, .ldBBso), (0x21, .ldBuBso), (0x22, .ldHBso), (0x23, .ldHuBso), (0x24, .ldWBso),
      (0x25, .ldDBso), (0x26, .ldABso), (0x27, .ldDaBso)],
   .secondary 0x29 ⟨22, 6⟩ .bo
     [(0x00, .ldBBrev), (0x04, .ldWBrev), (0x05, .ldDBrev), (0x06, .ldABrev), (0x07, .ldDaBrev),
      (0x10, .ldBCirc), (0x14, .ldWCirc), (0x15, .ldDCirc), (0x16, .ldACirc), (0x17, .ldDaCirc)],
   .secondary 0x89 ⟨22, 6⟩ .bo
     [(0x00, .stBPos), (0x04, .stWPos), (0x05, .stDPos), (0x06, .stAPos), (0x07, .stDaPos),
      (0x10, .stBPre), (0x14, .stWPre), (0x15, .stDPre), (0x16, .stAPre), (0x17, .stDaPre),
      (0x20, .stBBso), (0x22, .stHBso), (0x24, .stWBso), (0x25, .stDBso), (0x26, .stABso),
      (0x27, .stDaBso)],
   .secondary 0xA9 ⟨22, 6⟩ .bo
     [(0x00, .stBBrev), (0x04, .stWBrev), (0x05, .stDBrev), (0x06, .stABrev), (0x07, .stDaBrev),
      (0x10, .stBCirc), (0x14, .stWCirc), (0x15, .stDCirc), (0x16, .stACirc), (0x17, .stDaCirc)],
   .secondary 0x49 ⟨22, 6⟩ .bo [(0x28, .leaBo)],
   .direct .bol [(0x19, .ldWBol), (0x99, .ldABol), (0xD9, .leaBol), (0x59, .stWBol)],
   .secondary 0x8B ⟨21, 7⟩ .rc
     [(0x00, .addRc), (0x08, .rsubRc), (0x10, .eqRc), (0x20, .andEqRc), (0x21, .andNeRc),
      (0x22, .andLtRc), (0x23, .andLtURc), (0x24, .andGeRc), (0x25, .andGeURc), (0x27, .orEqRc),
      (0x28, .orNeRc), (0x29, .orLtRc), (0x2A, .orLtURc), (0x2B, .orGeRc), (0x2C, .orGeURc),
      (0x2F, .xorEqRc), (0x30, .xorNeRc), (0x31, .xorLtRc), (0x32, .xorLtURc), (0x33, .xorGeRc),
      (0x34, .xorGeURc)],
   .secondary 0x8F ⟨21, 7⟩ .rc [(0x08, .andRc), (0x0A, .orRc), (0x0C, .xorRc)],
   .secondary 0xB7 ⟨21, 2⟩ .rcpw [(0, .insertRcpw), (1, .imaskRcpw)],
   .direct .rlc
     [(0x1B, .addiRlc), (0x9B, .addihRlc), (0x11, .addihARlc), (0x3B, .movRlc), (0xBB, .movURlc),
      (0x7B, .movhRlc), (0x91, .movhARlc), (0xCD, .mtcrRlc), (0x4D, .mfcrRlc)],
   .secondary 0x0B ⟨20, 8⟩ .rr
     [(0x00, .addRr), (0x08, .subRr), (0x10, .eqRr), (0x1F, .movRr), (0x20, .andEqRr),
      (0x21, .andNeRr), (0x22, .andLtRr), (0x23, .andLtURr), (0x24, .andGeRr), (0x25, .andGeURr),
      (0x27, .orEqRr), (0x28, .orNeRr), (0x29, .orLtRr), (0x2A, .orLtURr), (0x2B, .orGeRr),
      (0x2C, .orGeURr), (0x2F, .xorEqRr), (0x30, .xorNeRr), (0x31, .xorLtRr), (0x32, .xorLtURr),
      (0x33, .xorGeRr), (0x34, .xorGeURr)],
   .secondary 0x01 ⟨20, 8⟩ .rr
     [(0x00, .movAaRr), (0x01, .addARr), (0x02, .subARr), (0x4C, .movDRr), (0x63, .movARr)],
   .secondary 0x0F ⟨20, 8⟩ .rr [(0x08, .andRr), (0x0A, .orRr), (0x0C, .xorRr)],
   .secondary 0x73 ⟨16, 12⟩ .rr2 [(0x0A, .mulRr2), (0x68, .mulURr2)],
   .secondary 0x37 ⟨21, 2⟩ .rrpw [(0, .insertRrpw), (2, .extrRrpw), (3, .extrURrpw)],
   .secondary 0x77 ⟨21, 2⟩ .rrpw [(0, .dextrRrpw)],
   .secondary 0x0D ⟨22, 6⟩ .sys [(0x0E, .restoreSys), (0x0F, .disableSys)],
   .secondary 0x03 ⟨16, 8⟩ .rrr2 [(0x0A, .maddRrr2)],
   .secondary 0x23 ⟨16, 8⟩ .rrr2 [(0x0A, .msubRrr2)],
   .secondary 0x43 ⟨18, 6⟩ .rrr1 [(0x02, .maddQRrr1)],
   .secondary 0x63 ⟨18, 6⟩ .rrr1 [(0x02, .msubQRrr1)],
   .secondary 0x93 ⟨18, 10⟩ .rr1 [(0x02, .mulQRr1)],
   .secondary 0xB3 ⟨18, 10⟩ .rr1 [(0x1A, .mulHRr1)],
   .secondary 0x47 ⟨21, 2⟩ .bit [(0, .andAndTBit)],
   .secondary 0x87 ⟨21, 2⟩ .bit [(0, .andTBit), (1, .orTBit)],
   .secondary 0x07 ⟨21, 2⟩ .bit [(0, .nandTBit)],
   .secondary 0x13 ⟨21, 3⟩ .rcr [(1, .maddRcr)],
   .secondary 0x33 ⟨21, 3⟩ .rcr [(1, .msubRcr)],
   .secondary 0xAB ⟨21, 3⟩ .rcr [(0, .caddRcr), (4, .selRcr)],
   .secondary 0x2B ⟨20, 4⟩ .rrr [(0, .caddRrr), (4, .selRrr), (5, .selnRrr)],
   .secondary 0x57 ⟨21, 3⟩ .rrrw [(0, .insertRrrw), (2, .extrRrrw), (3, .extrURrrw)],
   .secondary 0x97 ⟨21, 3⟩ .rcrr [(0, .insertRcrr)],
   .secondary 0x17 ⟨21, 3⟩ .rrrr [(2, .extrRrrr), (3, .extrURrrr), (4, .dextrRrrr)],
   .secondary 0xD7 ⟨21, 3⟩ .rcrw [(0, .insertRcrw)],
   .secondary 0x5F ⟨31, 1⟩ .brr [(0, .jeqBrr), (1, .jneBrr)],
   .secondary 0x3F ⟨31, 1⟩ .brr [(0, .jltBrr), (1, .jltUBrr)],
   .secondary 0x7F ⟨31, 1⟩ .brr [(0, .jgeBrr), (1, .jgeUBrr)],
   .secondary 0xDF ⟨31, 1⟩ .brc [(0, .jeqBrc), (1, .jneBrc)],
   .secondary 0xBF ⟨31, 1⟩ .brc [(0, .jltBrc), (1, .jltUBrc)],
   .secondary 0xFF ⟨31, 1⟩ .brc [(0, .jgeBrc), (1, .jgeUBrc)]]

/-- The plan for long words. The format `brn` keeps the highest bit of its bit number in bit `7`, so
that its primary opcode has seven bits. -/
def longPlan : Plan :=
  .seq
    (.test ⟨0, 7⟩ 0x6F (.select ⟨31, 1⟩ (bindings .brn [(0, .jzTBrn), (1, .jnzTBrn)])))
    (byPrimary longEntries)

end TriCore.Chart

namespace TriCore.Decision.Table

/-- The architecture's table for short words. -/
def short : Table := ⟨.short, Chart.shortPlan.ops⟩

/-- The architecture's table for long words. -/
def long : Table := ⟨.long, Chart.longPlan.ops⟩

/-- The architecture's table for the words of a width. -/
def ofWidth : Width → Table
  | .short => short
  | .long => long

theorem width_short : short.width = .short := rfl

theorem width_long : long.width = .long := rfl

end TriCore.Decision.Table
