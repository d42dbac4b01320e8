import LayerGraph.Program.Training
/-!
# The text of a program

A program has a model class, the classes of the blocks that it uses, and either a training loop or
only the model and its criterion. `Program.lines` lists its lines and `Program.text` joins them,
each with a line feed behind it.
-/

namespace LayerGraph
set_option autoImplicit false

/-- A program. -/
structure Program where
  className : String
  model : Model
  criterion : Expr
  training : Option TrainingPlan
  deriving Repr

/-! ## Blocks -/

def residualLines : List String :=
  ["class ResidualBlock(nn.Module):",
   "    def __init__(self, in_channels, out_channels, stride=1):",
   "        super().__init__()",
   "        self.conv1 = nn.Conv2d(in_channels, out_channels, kernel_size=3, stride=stride, "
     ++ "padding=1, bias=False)",
   "        self.bn1 = nn.BatchNorm2d(out_channels)",
   "        self.conv2 = nn.Conv2d(out_channels, out_channels, kernel_size=3, stride=1, "
     ++ "padding=1, bias=False)",
   "        self.bn2 = nn.BatchNorm2d(out_channels)",
   "        self.shortcut = nn.Sequential()",
   "        if stride != 1 or in_channels != out_channels:",
   "            self.shortcut = nn.Sequential(",
   "                nn.Conv2d(in_channels, out_channels, kernel_size=1, stride=stride, bias=False),",
   "                nn.BatchNorm2d(out_channels),",
   "            )",
   "",
   "    def forward(self, x):",
   "        out = torch.relu(self.bn1(self.conv1(x)))",
   "        out = self.bn2(self.conv2(out))",
   "        out = out + self.shortcut(x)",
   "        return torch.relu(out)"]

def inceptionLines : List String :=
  ["class InceptionBlock(nn.Module):",
   "    def __init__(self, in_channels, out_1x1, out_3x3, out_5x5, pool_proj):",
   "        super().__init__()",
   "        self.branch1 = nn.Sequential(",
   "            nn.Conv2d(in_channels, out_1x1, kernel_size=1),",
   "            nn.ReLU(inplace=True),",
   "        )",
   "        self.branch3 = nn.Sequential(",
   "            nn.Conv2d(in_channels, out_3x3, kernel_size=3, padding=1),",
   "            nn.ReLU(inplace=True),",
   "        )",
   "        self.branch5 = nn.Sequential(",
   "            nn.Conv2d(in_channels, out_5x5, kernel_size=5, padding=2),",
   "            nn.ReLU(inplace=True),",
   "        )",
   "        self.branch_pool = nn.Sequential(",
   "            nn.MaxPool2d(kernel_size=3, stride=1, padding=1),",
   "            nn.Conv2d(in_channels, pool_proj, kernel_size=1),",
   "            nn.ReLU(inplace=True),",
   "        )",
   "",
   "    def forward(self, x):",
   "        branches = [self.branch1(x), self.branch3(x), self.branch5(x), self.branch_pool(x)]",
   "        return torch.cat(branches, dim=1)"]

def Block.lines : Block → List String
  | residual => residualLines
  | inception => inceptionLines

namespace Model

def lines (model : Model) (className : String) : List String :=
  ["class " ++ className ++ "(nn.Module):", "    def __init__(self):", "        super().__init__()"]
    ++ model.fields.map ("        " ++ ·.text)
    ++ ["", "    def forward(self, x):"]
    ++ model.forward.map ("        " ++ ·.text)

end Model

/-! ## Training -/

namespace TrainingPlan

variable (plan : TrainingPlan)

def datasetCall (args : String) : String :=
  "torchvision.datasets." ++ plan.datasetClass ++ "(root=" ++ plan.dataRoot ++ ", " ++ args
    ++ ", transform=transform)"

def loaderCall (dataset : String) (shuffle : Bool) : String :=
  "DataLoader(" ++ dataset ++ ", batch_size=" ++ plan.batchSize.repr ++ ", shuffle="
    ++ ParamValue.boolLiteral shuffle ++ ", num_workers=" ++ plan.workers.repr ++ ", pin_memory="
    ++ ParamValue.boolLiteral plan.pinMemory ++ ")"

def dataLines : List String :=
  ["transform = transforms.Compose(["]
    ++ plan.transforms.map ("    " ++ ·.text ++ ",")
    ++ ["])",
        "",
        "train_dataset = " ++ plan.datasetCall plan.trainArgs,
        "test_dataset = " ++ plan.datasetCall plan.testArgs,
        "train_loader = " ++ plan.loaderCall "train_dataset" plan.shuffle,
        "test_loader = " ++ plan.loaderCall "test_dataset" false]

/-- The model on its device, with optimizer, criterion and metrics. -/
def setupLines (className : String) (criterion : Expr) : List String :=
  ["device = " ++ plan.device,
   "model = " ++ className ++ "().to(device)",
   "optimizer = " ++ plan.optimizer.text,
   "criterion = " ++ criterion.text]
    ++ plan.metrics.map fun metric => metric.name ++ " = " ++ metric.constructor.text ++ ".to(device)"

def updateLines (indent : String) : List String :=
  plan.metrics.map fun metric => indent ++ metric.name ++ ".update(outputs, targets)"

/-- Printing the metrics of a part and starting them anew. -/
def metricLines (part : String) : List String :=
  plan.metrics.flatMap fun metric =>
    ["    print('" ++ part ++ " " ++ metric.label ++ ":', " ++ metric.name ++ ".compute().item())",
     "    " ++ metric.name ++ ".reset()"]

def trainLines : List String :=
  let interval := plan.logInterval.repr
  ["def train_one_epoch(epoch):",
   "    model.train()",
   "    running_loss = 0.0",
   "    for step, (inputs, targets) in enumerate(train_loader):",
   "        inputs, targets = inputs.to(device), targets.to(device)",
   "        optimizer.zero_grad()",
   "        outputs = model(inputs)",
   "        loss = criterion(outputs, targets)",
   "        loss.backward()",
   "        optimizer.step()",
   "        running_loss += loss.item()"]
    ++ plan.updateLines "        "
    ++ ["        if (step + 1) % " ++ interval ++ " == 0:",
        "            print(f'Epoch [\x7bepoch + 1\x7d], Step [\x7bstep + 1\x7d], "
          ++ "Loss: \x7brunning_loss / " ++ interval ++ ":.4f\x7d')",
        "            running_loss = 0.0"]
    ++ plan.metricLines "train"

def evaluateLines : List String :=
  ["def evaluate():",
   "    model.eval()",
   "    total_loss = 0.0",
   "    correct = 0",
   "    total = 0",
   "    with torch.no_grad():",
   "        for inputs, targets in test_loader:",
   "            inputs, targets = inputs.to(device), targets.to(device)",
   "            outputs = model(inputs)",
   "            total_loss += criterion(outputs, targets).item()",
   "            correct += (outputs.argmax(dim=1) == targets).sum().item()",
   "            total += targets.size(0)"]
    ++ plan.updateLines "            "
    ++ plan.metricLines "val"
    ++ ["    return total_loss / len(test_loader), correct / max(total, 1)"]

def beforeEpochLines : List String :=
  (plan.checkpoint.elim [] fun checkpoint =>
    ["    os.makedirs(" ++ checkpoint.directory ++ ", exist_ok=True)",
     "    best_checkpoint_score = " ++ checkpoint.monitor.initial])
    ++ plan.stopping.elim [] fun stopping =>
      ["    best_score = " ++ stopping.monitor.initial,
       "    epochs_without_improvement = 0"]

def rateLines (epochs : Int) : List String :=
  ["        if (epoch + 1) % " ++ epochs.repr ++ " == 0:",
   "            for group_index, group in enumerate(optimizer.param_groups):",
   "                print(f'Epoch [\x7bepoch + 1\x7d] lr[\x7bgroup_index\x7d]: "
     ++ "\x7bgroup[\"lr\"]:.6f\x7d')"]

def checkpointLines (plan : CheckpointPlan) : List String :=
  if plan.bestOnly then
    let monitor := plan.monitor
    ["        if " ++ monitor.name ++ " " ++ monitor.better ++ " best_checkpoint_score:",
     "            best_checkpoint_score = " ++ monitor.name,
     "            torch.save(model.state_dict(), os.path.join(" ++ plan.directory
       ++ ", 'best_model.pt'))"]
  else
    ["        torch.save(model.state_dict(), os.path.join(" ++ plan.directory
       ++ ", f'model_epoch_\x7bepoch + 1\x7d.pt'))"]

def stoppingLines (plan : StoppingPlan) : List String :=
  let monitor := plan.monitor
  ["        if " ++ monitor.name ++ " " ++ monitor.better ++ " best_score " ++ monitor.margin ++ " "
     ++ plan.margin ++ ":",
   "            best_score = " ++ monitor.name,
   "            epochs_without_improvement = 0",
   "        else:",
   "            epochs_without_improvement += 1",
   "            if epochs_without_improvement >= " ++ plan.patience.repr ++ ":",
   "                print(f'Early stopping at epoch \x7bepoch + 1\x7d')",
   "                break"]

def mainLines : List String :=
  ["def main():", "    epochs = " ++ plan.epochs.repr]
    ++ plan.beforeEpochLines
    ++ ["    for epoch in range(epochs):",
        "        train_one_epoch(epoch)",
        "        val_loss, val_accuracy = evaluate()",
        "        print(f'Epoch [\x7bepoch + 1\x7d/\x7bepochs\x7d] val_loss: \x7bval_loss:.4f\x7d "
          ++ "val_accuracy: \x7bval_accuracy:.4f\x7d')"]
    ++ plan.rateReport.elim [] rateLines
    ++ plan.checkpoint.elim [] checkpointLines
    ++ plan.stopping.elim [] stoppingLines
    ++ ["", "", "if __name__ == '__main__':", "    main()"]

def loopLines (className : String) (criterion : Expr) : List String :=
  plan.setupLines className criterion ++ ["", ""]
    ++ plan.trainLines ++ ["", ""]
    ++ plan.evaluateLines ++ ["", ""]
    ++ plan.mainLines

end TrainingPlan

/-! ## The program -/

namespace Program

def importLines (program : Program) : List String :=
  ["import torch", "import torch.nn as nn"]
    ++ program.training.elim [] fun plan =>
      ["import torch.optim as optim",
       "from torch.utils.data import DataLoader",
       "import torchvision",
       "import torchvision.transforms as transforms"]
        ++ (if plan.metrics.isEmpty then [] else ["import torchmetrics"])
        ++ (if plan.checkpoint.isNone then [] else ["import os"])

/-- The lines of a program; a text within a line may break it further. -/
def lines (program : Program) : List String :=
  program.importLines ++ [""]
    ++ program.model.blocks.flatMap (["", ""] ++ ·.lines)
    ++ [""]
    ++ program.training.elim [] TrainingPlan.dataLines
    ++ ["", "", ""]
    ++ program.model.lines program.className
    ++ ["", ""]
    ++ match program.training with
      | some plan => plan.loopLines program.className program.criterion
      | none =>
        ["model = " ++ program.className ++ "()", "criterion = " ++ program.criterion.text]

def text (program : Program) : String := String.join (program.lines.map (· ++ "\n"))

end Program
end LayerGraph
