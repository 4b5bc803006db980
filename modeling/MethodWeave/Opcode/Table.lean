import MethodWeave.Opcode.Basic
import MethodWeave.Text.Hex
/-!
The table of opcodes, in the order of their codes, and looking them up.

Each row gives the code, the mnemonic as printed in listings, the class of the inline operand, the
stack slots consumed and produced (`none` where the member referred to decides) and the flags.
-/

namespace MethodWeave.Opcode

/-- Every instruction of the set. -/
def table : List Info := [
  ⟨⟨0x00⟩, "nop", .none, some 0, some 0, []⟩,
  ⟨⟨0x01⟩, "break", .none, some 0, some 0, []⟩,
  ⟨⟨0x02⟩, "ldarg.0", .none, some 0, some 1, [.argument]⟩,
  ⟨⟨0x03⟩, "ldarg.1", .none, some 0, some 1, [.argument]⟩,
  ⟨⟨0x04⟩, "ldarg.2", .none, some 0, some 1, [.argument]⟩,
  ⟨⟨0x05⟩, "ldarg.3", .none, some 0, some 1, [.argument]⟩,
  ⟨⟨0x06⟩, "ldloc.0", .none, some 0, some 1, [.local]⟩,
  ⟨⟨0x07⟩, "ldloc.1", .none, some 0, some 1, [.local]⟩,
  ⟨⟨0x08⟩, "ldloc.2", .none, some 0, some 1, [.local]⟩,
  ⟨⟨0x09⟩, "ldloc.3", .none, some 0, some 1, [.local]⟩,
  ⟨⟨0x0a⟩, "stloc.0", .none, some 1, some 0, [.local, .store]⟩,
  ⟨⟨0x0b⟩, "stloc.1", .none, some 1, some 0, [.local, .store]⟩,
  ⟨⟨0x0c⟩, "stloc.2", .none, some 1, some 0, [.local, .store]⟩,
  ⟨⟨0x0d⟩, "stloc.3", .none, some 1, some 0, [.local, .store]⟩,
  ⟨⟨0x0e⟩, "ldarg.s", .shortVar, some 0, some 1, [.argument]⟩,
  ⟨⟨0x0f⟩, "ldarga.s", .shortVar, some 0, some 1, [.argument, .address]⟩,
  ⟨⟨0x10⟩, "starg.s", .shortVar, some 1, some 0, [.argument, .store]⟩,
  ⟨⟨0x11⟩, "ldloc.s", .shortVar, some 0, some 1, [.local]⟩,
  ⟨⟨0x12⟩, "ldloca.s", .shortVar, some 0, some 1, [.local, .address]⟩,
  ⟨⟨0x13⟩, "stloc.s", .shortVar, some 1, some 0, [.local, .store]⟩,
  ⟨⟨0x14⟩, "ldnull", .none, some 0, some 1, []⟩,
  ⟨⟨0x15⟩, "ldc.i4.m1", .none, some 0, some 1, []⟩,
  ⟨⟨0x16⟩, "ldc.i4.0", .none, some 0, some 1, []⟩,
  ⟨⟨0x17⟩, "ldc.i4.1", .none, some 0, some 1, []⟩,
  ⟨⟨0x18⟩, "ldc.i4.2", .none, some 0, some 1, []⟩,
  ⟨⟨0x19⟩, "ldc.i4.3", .none, some 0, some 1, []⟩,
  ⟨⟨0x1a⟩, "ldc.i4.4", .none, some 0, some 1, []⟩,
  ⟨⟨0x1b⟩, "ldc.i4.5", .none, some 0, some 1, []⟩,
  ⟨⟨0x1c⟩, "ldc.i4.6", .none, some 0, some 1, []⟩,
  ⟨⟨0x1d⟩, "ldc.i4.7", .none, some 0, some 1, []⟩,
  ⟨⟨0x1e⟩, "ldc.i4.8", .none, some 0, some 1, []⟩,
  ⟨⟨0x1f⟩, "ldc.i4.s", .shortInt, some 0, some 1, []⟩,
  ⟨⟨0x20⟩, "ldc.i4", .int, some 0, some 1, []⟩,
  ⟨⟨0x21⟩, "ldc.i8", .int8, some 0, some 1, []⟩,
  ⟨⟨0x22⟩, "ldc.r4", .shortReal, some 0, some 1, []⟩,
  ⟨⟨0x23⟩, "ldc.r8", .real, some 0, some 1, []⟩,
  ⟨⟨0x25⟩, "dup", .none, some 1, some 2, []⟩,
  ⟨⟨0x26⟩, "pop", .none, some 1, some 0, []⟩,
  ⟨⟨0x27⟩, "jmp", .method, some 0, some 0, [.return]⟩,
  ⟨⟨0x28⟩, "call", .method, none, none, [.call]⟩,
  ⟨⟨0x29⟩, "calli", .signature, none, none, [.call]⟩,
  ⟨⟨0x2a⟩, "ret", .none, none, some 0, [.return]⟩,
  ⟨⟨0x2b⟩, "br.s", .shortBranch, some 0, some 0, [.jump]⟩,
  ⟨⟨0x2c⟩, "brfalse.s", .shortBranch, some 1, some 0, [.jump, .conditional]⟩,
  ⟨⟨0x2d⟩, "brtrue.s", .shortBranch, some 1, some 0, [.jump, .conditional]⟩,
  ⟨⟨0x2e⟩, "beq.s", .shortBranch, some 2, some 0, [.jump, .conditional]⟩,
  ⟨⟨0x2f⟩, "bge.s", .shortBranch, some 2, some 0, [.jump, .conditional]⟩,
  ⟨⟨0x30⟩, "bgt.s", .shortBranch, some 2, some 0, [.jump, .conditional]⟩,
  ⟨⟨0x31⟩, "ble.s", .shortBranch, some 2, some 0, [.jump, .conditional]⟩,
  ⟨⟨0x32⟩, "blt.s", .shortBranch, some 2, some 0, [.jump, .conditional]⟩,
  ⟨⟨0x33⟩, "bne.un.s", .shortBranch, some 2, some 0, [.jump, .conditional]⟩,
  ⟨⟨0x34⟩, "bge.un.s", .shortBranch, some 2, some 0, [.jump, .conditional]⟩,
  ⟨⟨0x35⟩, "bgt.un.s", .shortBranch, some 2, some 0, [.jump, .conditional]⟩,
  ⟨⟨0x36⟩, "ble.un.s", .shortBranch, some 2, some 0, [.jump, .conditional]⟩,
  ⟨⟨0x37⟩, "blt.un.s", .shortBranch, some 2, some 0, [.jump, .conditional]⟩,
  ⟨⟨0x38⟩, "br", .branch, some 0, some 0, [.jump]⟩,
  ⟨⟨0x39⟩, "brfalse", .branch, some 1, some 0, [.jump, .conditional]⟩,
  ⟨⟨0x3a⟩, "brtrue", .branch, some 1, some 0, [.jump, .conditional]⟩,
  ⟨⟨0x3b⟩, "beq", .branch, some 2, some 0, [.jump, .conditional]⟩,
  ⟨⟨0x3c⟩, "bge", .branch, some 2, some 0, [.jump, .conditional]⟩,
  ⟨⟨0x3d⟩, "bgt", .branch, some 2, some 0, [.jump, .conditional]⟩,
  ⟨⟨0x3e⟩, "ble", .branch, some 2, some 0, [.jump, .conditional]⟩,
  ⟨⟨0x3f⟩, "blt", .branch, some 2, some 0, [.jump, .conditional]⟩,
  ⟨⟨0x40⟩, "bne.un", .branch, some 2, some 0, [.jump, .conditional]⟩,
  ⟨⟨0x41⟩, "bge.un", .branch, some 2, some 0, [.jump, .conditional]⟩,
  ⟨⟨0x42⟩, "bgt.un", .branch, some 2, some 0, [.jump, .conditional]⟩,
  ⟨⟨0x43⟩, "ble.un", .branch, some 2, some 0, [.jump, .conditional]⟩,
  ⟨⟨0x44⟩, "blt.un", .branch, some 2, some 0, [.jump, .conditional]⟩,
  ⟨⟨0x45⟩, "switch", .switch, some 1, some 0, [.jump, .conditional]⟩,
  ⟨⟨0x46⟩, "ldind.i1", .none, some 1, some 1, []⟩,
  ⟨⟨0x47⟩, "ldind.u1", .none, some 1, some 1, []⟩,
  ⟨⟨0x48⟩, "ldind.i2", .none, some 1, some 1, []⟩,
  ⟨⟨0x49⟩, "ldind.u2", .none, some 1, some 1, []⟩,
  ⟨⟨0x4a⟩, "ldind.i4", .none, some 1, some 1, []⟩,
  ⟨⟨0x4b⟩, "ldind.u4", .none, some 1, some 1, []⟩,
  ⟨⟨0x4c⟩, "ldind.i8", .none, some 1, some 1, []⟩,
  ⟨⟨0x4d⟩, "ldind.i", .none, some 1, some 1, []⟩,
  ⟨⟨0x4e⟩, "ldind.r4", .none, some 1, some 1, []⟩,
  ⟨⟨0x4f⟩, "ldind.r8", .none, some 1, some 1, []⟩,
  ⟨⟨0x50⟩, "ldind.ref", .none, some 1, some 1, []⟩,
  ⟨⟨0x51⟩, "stind.ref", .none, some 2, some 0, []⟩,
  ⟨⟨0x52⟩, "stind.i1", .none, some 2, some 0, []⟩,
  ⟨⟨0x53⟩, "stind.i2", .none, some 2, some 0, []⟩,
  ⟨⟨0x54⟩, "stind.i4", .none, some 2, some 0, []⟩,
  ⟨⟨0x55⟩, "stind.i8", .none, some 2, some 0, []⟩,
  ⟨⟨0x56⟩, "stind.r4", .none, some 2, some 0, []⟩,
  ⟨⟨0x57⟩, "stind.r8", .none, some 2, some 0, []⟩,
  ⟨⟨0x58⟩, "add", .none, some 2, some 1, []⟩,
  ⟨⟨0x59⟩, "sub", .none, some 2, some 1, []⟩,
  ⟨⟨0x5a⟩, "mul", .none, some 2, some 1, []⟩,
  ⟨⟨0x5b⟩, "div", .none, some 2, some 1, []⟩,
  ⟨⟨0x5c⟩, "div.un", .none, some 2, some 1, []⟩,
  ⟨⟨0x5d⟩, "rem", .none, some 2, some 1, []⟩,
  ⟨⟨0x5e⟩, "rem.un", .none, some 2, some 1, []⟩,
  ⟨⟨0x5f⟩, "and", .none, some 2, some 1, []⟩,
  ⟨⟨0x60⟩, "or", .none, some 2, some 1, []⟩,
  ⟨⟨0x61⟩, "xor", .none, some 2, some 1, []⟩,
  ⟨⟨0x62⟩, "shl", .none, some 2, some 1, []⟩,
  ⟨⟨0x63⟩, "shr", .none, some 2, some 1, []⟩,
  ⟨⟨0x64⟩, "shr.un", .none, some 2, some 1, []⟩,
  ⟨⟨0x65⟩, "neg", .none, some 1, some 1, []⟩,
  ⟨⟨0x66⟩, "not", .none, some 1, some 1, []⟩,
  ⟨⟨0x67⟩, "conv.i1", .none, some 1, some 1, []⟩,
  ⟨⟨0x68⟩, "conv.i2", .none, some 1, some 1, []⟩,
  ⟨⟨0x69⟩, "conv.i4", .none, some 1, some 1, []⟩,
  ⟨⟨0x6a⟩, "conv.i8", .none, some 1, some 1, []⟩,
  ⟨⟨0x6b⟩, "conv.r4", .none, some 1, some 1, []⟩,
  ⟨⟨0x6c⟩, "conv.r8", .none, some 1, some 1, []⟩,
  ⟨⟨0x6d⟩, "conv.u4", .none, some 1, some 1, []⟩,
  ⟨⟨0x6e⟩, "conv.u8", .none, some 1, some 1, []⟩,
  ⟨⟨0x6f⟩, "callvirt", .method, none, none, [.call]⟩,
  ⟨⟨0x70⟩, "cpobj", .type, some 2, some 0, []⟩,
  ⟨⟨0x71⟩, "ldobj", .type, some 1, some 1, []⟩,
  ⟨⟨0x72⟩, "ldstr", .string, some 0, some 1, []⟩,
  ⟨⟨0x73⟩, "newobj", .method, none, some 1, [.call]⟩,
  ⟨⟨0x74⟩, "castclass", .type, some 1, some 1, []⟩,
  ⟨⟨0x75⟩, "isinst", .type, some 1, some 1, []⟩,
  ⟨⟨0x76⟩, "conv.r.un", .none, some 1, some 1, []⟩,
  ⟨⟨0x79⟩, "unbox", .type, some 1, some 1, []⟩,
  ⟨⟨0x7a⟩, "throw", .none, some 1, some 0, [.throw]⟩,
  ⟨⟨0x7b⟩, "ldfld", .field, some 1, some 1, []⟩,
  ⟨⟨0x7c⟩, "ldflda", .field, some 1, some 1, [.address]⟩,
  ⟨⟨0x7d⟩, "stfld", .field, some 2, some 0, [.store]⟩,
  ⟨⟨0x7e⟩, "ldsfld", .field, some 0, some 1, []⟩,
  ⟨⟨0x7f⟩, "ldsflda", .field, some 0, some 1, [.address]⟩,
  ⟨⟨0x80⟩, "stsfld", .field, some 1, some 0, [.store]⟩,
  ⟨⟨0x81⟩, "stobj", .type, some 2, some 0, [.store]⟩,
  ⟨⟨0x82⟩, "conv.ovf.i1.un", .none, some 1, some 1, []⟩,
  ⟨⟨0x83⟩, "conv.ovf.i2.un", .none, some 1, some 1, []⟩,
  ⟨⟨0x84⟩, "conv.ovf.i4.un", .none, some 1, some 1, []⟩,
  ⟨⟨0x85⟩, "conv.ovf.i8.un", .none, some 1, some 1, []⟩,
  ⟨⟨0x86⟩, "conv.ovf.u1.un", .none, some 1, some 1, []⟩,
  ⟨⟨0x87⟩, "conv.ovf.u2.un", .none, some 1, some 1, []⟩,
  ⟨⟨0x88⟩, "conv.ovf.u4.un", .none, some 1, some 1, []⟩,
  ⟨⟨0x89⟩, "conv.ovf.u8.un", .none, some 1, some 1, []⟩,
  ⟨⟨0x8a⟩, "conv.ovf.i.un", .none, some 1, some 1, []⟩,
  ⟨⟨0x8b⟩, "conv.ovf.u.un", .none, some 1, some 1, []⟩,
  ⟨⟨0x8c⟩, "box", .type, some 1, some 1, []⟩,
  ⟨⟨0x8d⟩, "newarr", .type, some 1, some 1, []⟩,
  ⟨⟨0x8e⟩, "ldlen", .none, some 1, some 1, []⟩,
  ⟨⟨0x8f⟩, "ldelema", .type, some 2, some 1, [.address]⟩,
  ⟨⟨0x90⟩, "ldelem.i1", .none, some 2, some 1, []⟩,
  ⟨⟨0x91⟩, "ldelem.u1", .none, some 2, some 1, []⟩,
  ⟨⟨0x92⟩, "ldelem.i2", .none, some 2, some 1, []⟩,
  ⟨⟨0x93⟩, "ldelem.u2", .none, some 2, some 1, []⟩,
  ⟨⟨0x94⟩, "ldelem.i4", .none, some 2, some 1, []⟩,
  ⟨⟨0x95⟩, "ldelem.u4", .none, some 2, some 1, []⟩,
  ⟨⟨0x96⟩, "ldelem.i8", .none, some 2, some 1, []⟩,
  ⟨⟨0x97⟩, "ldelem.i", .none, some 2, some 1, []⟩,
  ⟨⟨0x98⟩, "ldelem.r4", .none, some 2, some 1, []⟩,
  ⟨⟨0x99⟩, "ldelem.r8", .none, some 2, some 1, []⟩,
  ⟨⟨0x9a⟩, "ldelem.ref", .none, some 2, some 1, []⟩,
  ⟨⟨0x9b⟩, "stelem.i", .none, some 3, some 0, [.store]⟩,
  ⟨⟨0x9c⟩, "stelem.i1", .none, some 3, some 0, [.store]⟩,
  ⟨⟨0x9d⟩, "stelem.i2", .none, some 3, some 0, [.store]⟩,
  ⟨⟨0x9e⟩, "stelem.i4", .none, some 3, some 0, [.store]⟩,
  ⟨⟨0x9f⟩, "stelem.i8", .none, some 3, some 0, [.store]⟩,
  ⟨⟨0xa0⟩, "stelem.r4", .none, some 3, some 0, [.store]⟩,
  ⟨⟨0xa1⟩, "stelem.r8", .none, some 3, some 0, [.store]⟩,
  ⟨⟨0xa2⟩, "stelem.ref", .none, some 3, some 0, [.store]⟩,
  ⟨⟨0xa3⟩, "ldelem", .type, some 2, some 1, []⟩,
  ⟨⟨0xa4⟩, "stelem", .type, some 3, some 0, [.store]⟩,
  ⟨⟨0xa5⟩, "unbox.any", .type, some 1, some 1, []⟩,
  ⟨⟨0xb3⟩, "conv.ovf.i1", .none, some 1, some 1, []⟩,
  ⟨⟨0xb4⟩, "conv.ovf.u1", .none, some 1, some 1, []⟩,
  ⟨⟨0xb5⟩, "conv.ovf.i2", .none, some 1, some 1, []⟩,
  ⟨⟨0xb6⟩, "conv.ovf.u2", .none, some 1, some 1, []⟩,
  ⟨⟨0xb7⟩, "conv.ovf.i4", .none, some 1, some 1, []⟩,
  ⟨⟨0xb8⟩, "conv.ovf.u4", .none, some 1, some 1, []⟩,
  ⟨⟨0xb9⟩, "conv.ovf.i8", .none, some 1, some 1, []⟩,
  ⟨⟨0xba⟩, "conv.ovf.u8", .none, some 1, some 1, []⟩,
  ⟨⟨0xc2⟩, "refanyval", .type, some 1, some 1, []⟩,
  ⟨⟨0xc3⟩, "ckfinite", .none, some 1, some 1, []⟩,
  ⟨⟨0xc6⟩, "mkrefany", .type, some 1, some 1, []⟩,
  ⟨⟨0xd0⟩, "ldtoken", .member, some 0, some 1, []⟩,
  ⟨⟨0xd1⟩, "conv.u2", .none, some 1, some 1, []⟩,
  ⟨⟨0xd2⟩, "conv.u1", .none, some 1, some 1, []⟩,
  ⟨⟨0xd3⟩, "conv.i", .none, some 1, some 1, []⟩,
  ⟨⟨0xd4⟩, "conv.ovf.i", .none, some 1, some 1, []⟩,
  ⟨⟨0xd5⟩, "conv.ovf.u", .none, some 1, some 1, []⟩,
  ⟨⟨0xd6⟩, "add.ovf", .none, some 2, some 1, []⟩,
  ⟨⟨0xd7⟩, "add.ovf.un", .none, some 2, some 1, []⟩,
  ⟨⟨0xd8⟩, "mul.ovf", .none, some 2, some 1, []⟩,
  ⟨⟨0xd9⟩, "mul.ovf.un", .none, some 2, some 1, []⟩,
  ⟨⟨0xda⟩, "sub.ovf", .none, some 2, some 1, []⟩,
  ⟨⟨0xdb⟩, "sub.ovf.un", .none, some 2, some 1, []⟩,
  ⟨⟨0xdc⟩, "endfinally", .none, some 0, some 0, []⟩,
  ⟨⟨0xdd⟩, "leave", .branch, some 0, some 0, [.jump]⟩,
  ⟨⟨0xde⟩, "leave.s", .shortBranch, some 0, some 0, [.jump]⟩,
  ⟨⟨0xdf⟩, "stind.i", .none, some 2, some 0, []⟩,
  ⟨⟨0xe0⟩, "conv.u", .none, some 1, some 1, []⟩,
  ⟨⟨0xfe00⟩, "arglist", .none, some 0, some 1, []⟩,
  ⟨⟨0xfe01⟩, "ceq", .none, some 2, some 1, []⟩,
  ⟨⟨0xfe02⟩, "cgt", .none, some 2, some 1, []⟩,
  ⟨⟨0xfe03⟩, "cgt.un", .none, some 2, some 1, []⟩,
  ⟨⟨0xfe04⟩, "clt", .none, some 2, some 1, []⟩,
  ⟨⟨0xfe05⟩, "clt.un", .none, some 2, some 1, []⟩,
  ⟨⟨0xfe06⟩, "ldftn", .method, some 0, some 1, []⟩,
  ⟨⟨0xfe07⟩, "ldvirtftn", .method, some 1, some 1, []⟩,
  ⟨⟨0xfe09⟩, "ldarg", .var, some 0, some 1, [.argument]⟩,
  ⟨⟨0xfe0a⟩, "ldarga", .var, some 0, some 1, [.argument, .address]⟩,
  ⟨⟨0xfe0b⟩, "starg", .var, some 1, some 0, [.argument, .store]⟩,
  ⟨⟨0xfe0c⟩, "ldloc", .var, some 0, some 1, [.local]⟩,
  ⟨⟨0xfe0d⟩, "ldloca", .var, some 0, some 1, [.local, .address]⟩,
  ⟨⟨0xfe0e⟩, "stloc", .var, some 1, some 0, [.local, .store]⟩,
  ⟨⟨0xfe0f⟩, "localloc", .none, some 1, some 1, []⟩,
  ⟨⟨0xfe11⟩, "endfilter", .none, some 1, some 0, []⟩,
  ⟨⟨0xfe12⟩, "unaligned.", .shortInt, some 0, some 0, [.modifier]⟩,
  ⟨⟨0xfe13⟩, "volatile.", .none, some 0, some 0, [.modifier]⟩,
  ⟨⟨0xfe14⟩, "tail.", .none, some 0, some 0, [.modifier]⟩,
  ⟨⟨0xfe15⟩, "initobj", .type, some 1, some 0, []⟩,
  ⟨⟨0xfe16⟩, "constrained.", .type, some 0, some 0, [.modifier]⟩,
  ⟨⟨0xfe17⟩, "cpblk", .none, some 3, some 0, []⟩,
  ⟨⟨0xfe18⟩, "initblk", .none, some 3, some 0, []⟩,
  ⟨⟨0xfe1a⟩, "rethrow", .none, some 0, some 0, [.throw]⟩,
  ⟨⟨0xfe1c⟩, "sizeof", .type, some 0, some 1, []⟩,
  ⟨⟨0xfe1d⟩, "refanytype", .none, some 1, some 1, []⟩,
  ⟨⟨0xfe1e⟩, "readonly.", .none, some 0, some 0, [.modifier]⟩]

/-- The row of an opcode, if the code is in the table. -/
def info? (op : Opcode) : Option Info := table.find? (·.opcode == op)

theorem opcode_of_info? {op : Opcode} {i : Info} (h : op.info? = some i) : i.opcode = op := by
  simpa using List.find?_some h

/-- Every two-byte code begins with the prefix byte, and no one-byte code is that byte. -/
theorem code_of_mem_table :
    ∀ i ∈ table, if i.opcode.code.toNat > 0xff then i.opcode.code.toNat / 256 = 0xfe
      else i.opcode.code.toNat ≠ 0xfe := by
  decide +kernel

theorem mem_table_of_info? {op : Opcode} {i : Info} (h : op.info? = some i) : i ∈ table :=
  List.mem_of_find?_eq_some h

/-- Is the code in the table? -/
def isValid (op : Opcode) : Bool := op.info?.isSome

/-- The mnemonic, or two question marks for a code outside the table. -/
def mnemonic (op : Opcode) : String := (op.info?.map (·.mnemonic)).getD "??"

/-- Code and mnemonic together, for messages about the opcode itself. -/
def describe (op : Opcode) : String :=
  "Opcode(0x" ++ Text.hex 4 op.code.toNat ++ " " ++ op.mnemonic ++ ")"

/-- The flags of an opcode; a code outside the table has none. -/
def flags (op : Opcode) : List Flag := (op.info?.map (·.flags)).getD []

/-- The class of the inline operand. -/
def operandClass? (op : Opcode) : Option OperandClass := op.info?.map (·.operand)

/-- The row with the given mnemonic. -/
def ofMnemonic? (name : String) : Option Opcode :=
  (table.find? (·.mnemonic == name)).map (·.opcode)

end MethodWeave.Opcode
