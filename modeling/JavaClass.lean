import JavaClass.Main
import JavaClass.Proofs.Bytes.Runs
import JavaClass.Proofs.ClassFile.CodeLength
import JavaClass.Proofs.ClassFile.Consistent
import JavaClass.Proofs.ClassFile.Diagnosis
import JavaClass.Proofs.ClassFile.Disassembly
import JavaClass.Proofs.ClassFile.Guarded
import JavaClass.Proofs.ClassFile.SingleIndex
import JavaClass.Proofs.ClassFile.Verbatim
import JavaClass.Proofs.ClassPath.RoundTrip
import JavaClass.Proofs.ClassPath.Spelling
import JavaClass.Proofs.Code.LineLookup
import JavaClass.Proofs.ConstantPool.Growth
import JavaClass.Proofs.ConstantPool.Listing
import JavaClass.Proofs.Decimal.Positional
import JavaClass.Proofs.Instruction.Composition
import JavaClass.Proofs.Instruction.Jumps
import JavaClass.Proofs.Instruction.Lengths
import JavaClass.Proofs.Instruction.Text
import JavaClass.Proofs.Instruction.Undecodable
import JavaClass.Proofs.Text.Forms
