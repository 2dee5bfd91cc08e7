import ClassAccess.ClassFile.Sample
import ClassAccess.Descriptor.Tree
import ClassAccess.Instruction.Form
import ClassAccess.Main
import ClassAccess.Manifest.Section
import ClassAccess.ModifiedUtf8.Spelling
import ClassAccess.Proofs.TransformSet.Absorption
import ClassAccess.Proofs.TransformSet.Extent
import ClassAccess.Proofs.TransformSet.Lines
import ClassAccess.Proofs.TransformSet.Lookup
import ClassAccess.Proofs.TransformSet.Needs
import ClassAccess.Proofs.TransformSet.Twice
import ClassAccess.TransformSet.Renaming
import ClassAccess.TransformSet.Representable
import ClassAccess.Proofs.Text.Words
import ClassAccess.Proofs.TransformSet.Codec
import ClassAccess.Proofs.Descriptor.Renaming
import ClassAccess.Proofs.NameTable.Built
import ClassAccess.Proofs.NameTable.FullyMapped
import ClassAccess.Proofs.NameTable.Indexed
import ClassAccess.Proofs.TransformSet.Collisions
import ClassAccess.Proofs.NameTable.Resolution
import ClassAccess.Proofs.Revision.Arrangement
import ClassAccess.Proofs.Revision.Frame
import ClassAccess.Proofs.Revision.Acceptance
import ClassAccess.Proofs.Revision.Interleaving
import ClassAccess.Proofs.ModifiedUtf8.Roundtrip
import ClassAccess.Proofs.Reading.Taking
import ClassAccess.Proofs.ClassFile.Forms
import ClassAccess.Proofs.ConstantPool.Codec
import ClassAccess.Proofs.ConstantPool.Interning
import ClassAccess.Proofs.Assembly.Requests
import ClassAccess.Proofs.Assembly.Records
import ClassAccess.Proofs.Assembly.Rows
import ClassAccess.Proofs.Assembly.Calls
import ClassAccess.Proofs.Assembly.Roundtrip
import ClassAccess.Proofs.ClassFile.Extent
import ClassAccess.NameTable.Indexed
import ClassAccess.Proofs.ConstantPool.Runs
import ClassAccess.Proofs.Revision.Modified
import ClassAccess.Proofs.TransformSet.Observed
import ClassAccess.Proofs.ModifiedUtf8.Sequences
import ClassAccess.Proofs.ClassFile.Disassembly
import ClassAccess.Proofs.CommandLine.Apply
import ClassAccess.Proofs.Descriptor.Types
import ClassAccess.Proofs.TransformSet.Formats
import ClassAccess.Proofs.TransformSet.Merging
import ClassAccess.Proofs.Manifest.Unfolding
import ClassAccess.Proofs.Manifest.Spelling
import ClassAccess.Proofs.ClassFile.Marks
import ClassAccess.Proofs.Machine.Writing
