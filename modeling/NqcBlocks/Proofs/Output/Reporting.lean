import NqcBlocks.Proofs.Output.Effect
import NqcBlocks.Proofs.Workspace.Misuse

/-!
# What a run reports

A run on a file that is there ends in one of three ways. It says that there is no program, it says that the
program has been written, or it is cut short without a word. `Job.Unreported` lists what the last can come
of: the file is no text, the document goes beyond the limits of the reader, an entry that counts has a part of
the wrong type, the remark of a block is no text, or the file of the program cannot be written.
-/

namespace NqcBlocks

open Files Workspace

variable {content : Content} {d : Disk} {document : Json} {g : Graph}

end NqcBlocks
